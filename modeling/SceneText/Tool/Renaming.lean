import SceneText.Tool.CommandLine

/-!
# Renaming by list

Gives the numbered files of a directory the names that a list has for them. Files whose number is
another file's new name are first moved out of the way under a temporary name.
-/

namespace SceneText.RenamingTool

open Run

structure Renaming where
  source : String
  target : String
  deriving DecidableEq, Repr

def resolve (path : String) : Run Location := do
  checkPath path
  match ← query fun tree dir => tree.resolve? dir path with
  | some loc => return loc
  | none => fail (.linkCircle path)

def leadsElsewhere (r : Renaming) : Run Bool := do
  return (← resolve r.source) ≠ (← resolve r.target)

def isBadName (name : String) : Bool :=
  name.isEmpty || name = "." || name = ".." || name.toList.contains '/'

def checkNames (i : Nat) : List String → Run Unit
  | [] => pure ()
  | name :: rest =>
    if isBadName name then exitWith s!"ERROR: 第{i}行非法目标名: {name}"
    else checkNames (i + 1) rest

def checkSource (path : String) : Run Unit := do
  let isLink ← query fun tree dir => tree.isLink dir path
  if !(← occupied path) || !((← holdsFile path) || isLink) then
    exitWith s!"ERROR: 缺失或非法源文件: {path}"

def checkTarget (sources : List String) (path : String) : Run Unit := do
  if (← occupied path) && !sources.contains path then
    exitWith s!"ERROR: 目标已存在且不是源文件，可能覆盖: {path}"

def temporaryName : Run String := do
  let ticket := (← get).tickets + 1
  modify fun s => { s with tickets := ticket }
  return ".tmp_rename_" ++ Hex.paddedLower 32 ticket

def temporaryPath (dir : String) : Nat → Run String
  | 0 => do return Path.join dir (← temporaryName)
  | tries + 1 => do
    let path := Path.join dir (← temporaryName)
    if ← occupied path then temporaryPath dir tries else return path

/-- Moves the files out of the way whose paths are wanted by other files; the paths they had with
those they got. -/
def makeRoom (dir : String) (sources : List String) (moved : List (String × String)) :
    List Renaming → Run (List (String × String))
  | [] => pure moved
  | r :: rest => do
    if sources.contains r.target && (moved.lookup r.target).isNone && r.target ≠ r.source then
      let path ← temporaryPath dir (← get).tree.entries.length
      rename r.target path
      makeRoom dir sources (moved ++ [(r.target, path)]) rest
    else makeRoom dir sources moved rest

def renameOne (moved : List (String × String)) (r : Renaming) : Run Unit := do
  if (moved.lookup r.source).isNone then
    if ← leadsElsewhere r then rename r.source r.target

def finish (renamings : List Renaming) (pair : String × String) : Run Unit := do
  match renamings.find? fun r => r.source = pair.1 with
  | none => pure ()
  | some r =>
    if ← occupied r.target then exitWith s!"ERROR: 预期空的目标已存在: {r.target}"
    rename pair.2 r.target

def carryOut (dir : String) (sources : List String) (renamings : List Renaming) : Run Unit := do
  let needed ← renamings.filterM leadsElsewhere
  let moved ← makeRoom dir sources [] needed
  renamings.forM (renameOne moved)
  moved.forM (finish renamings)
  say "OK"

def renameAll (dir : String) (names : List String) : Run Unit := do
  let sources := (List.range names.length).map fun i => Path.join dir s!"{i + 1}.snr"
  sources.forM checkSource
  let targets := names.map (Path.join dir)
  targets.forM (checkTarget sources)
  carryOut dir sources ((sources.zip targets).map fun (s, t) => Renaming.mk s t)

def main : Run Unit := do
  let here ← workPath
  let lines := Text.wideLines (← readChars (here.append "filenames.txt").toText)
  let names := lines.map fun line => String.ofList (Text.trim line)
  if names.isEmpty then exitWith "ERROR: filenames.txt 空"
  checkNames 1 names
  if !decide names.Nodup then exitWith "ERROR: 发现重复目标名"
  renameAll (here.append "raw").toText names

end SceneText.RenamingTool
