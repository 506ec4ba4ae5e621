import SceneText.Session

/-!
# Copying and merging

Files and directories are copied with what links lead to; the copy of a file is write-protected if
the file is. A directory copy goes on past entries that cannot be copied and fails at the end.
Merging copies what is new and descends into directories that both sides have.
-/

namespace SceneText.Workspace

open Run

def isSameNode (a b : String) : Run Bool :=
  query fun tree dir =>
    match tree.stat dir a, tree.stat dir b with
    | .ok (x, _), .ok (y, _) => x = y
    | _, _ => false

def copyFile (source target : String) : Run Unit := do
  let target := if ← isDirectory target then Path.join target (Path.base source) else target
  if ← isSameNode source target then fail (.sameFile source target)
  let bytes ← readBytes source
  writeBytes target bytes
  modify fun s => { s with tree := s.tree.protectLike s.workDir source target }

def copyEach (copy : String → Run Unit) : List String → Run Bool
  | [] => pure true
  | name :: rest => do
    let done ← attempt (copy name)
    let others ← copyEach copy rest
    return done.toOption.isSome && others

/-- Copies one entry of a directory; `descend` copies a directory. -/
def copyEntry (descend : String → String → Run Unit) (source target name : String) : Run Unit := do
  let here := Path.join source name
  let there := Path.join target name
  if ← isDirectory here then descend here there else copyFile here there

def copyTreeWithin : Nat → String → String → Run Unit
  | 0, _, target => fileFault target .nameTooLong
  | depth + 1, source, target => do
    let names ← listNames source
    makeDirectories false target
    let complete ← copyEach (copyEntry (copyTreeWithin depth) source target) names
    if !complete then fail (.copiedInPart source target)

/-- Links can lead a copy round in circles, but each step makes its path longer. -/
def copyTree (source target : String) : Run Unit :=
  copyTreeWithin FileTree.pathLimit source target

def clear (path : String) : Run Unit := do
  if ← holdsFile path then removeFile path else removeTree path

def makeRoom (overwrite : Bool) (there : String) : Run Unit := do
  if ← occupied there then
    if !overwrite then refuse (.destinationExists there)
    clear there
    say s!"提示: 已删除已存在的目标路径 '{there}'"

def deliver (here there : String) : Run Unit := do
  if ← holdsFile here then
    copyFile here there
    say s!"文件复制成功: '{here}' -> '{there}'"
  else if ← holdsDirectory here then
    copyTree here there
    say s!"目录复制成功: '{here}' -> '{there}'"
  else refuse (.neitherFileNorDirectory here)

/-- Copies a file or a directory. A file copied to a directory keeps its name there. What is in the
way is taken away if `overwrite` allows it. -/
def copyPath (source destination : String) (overwrite : Bool) : Run Unit := do
  let sourcePath := Path.Clean.ofText source
  let here := sourcePath.toText
  if !(← occupied here) then refuse (.sourceMissing source)
  let target := Path.Clean.ofText destination
  let inside ← if ← holdsDirectory target.toText then holdsFile here else pure false
  let target := if inside then target.append sourcePath.name else target
  makeRoom overwrite target.toText
  makeClean target.parent
  deliver here target.toText

def mergeFile (here there : String) (overwrite : Bool) : Run Unit := do
  if !(← occupied there) then
    copyFile here there
    say s!"复制文件: '{here}' -> '{there}'"
  else if overwrite then
    copyFile here there
    say s!"覆盖文件: '{here}' -> '{there}'"
  else say s!"跳过已存在的文件: '{there}'"

def placeDirectory (here there : String) (overwrite : Bool) : Run Unit := do
  if !(← occupied there) then
    copyTree here there
    say s!"复制目录: '{here}' -> '{there}'"
  else if overwrite then
    clear there
    copyTree here there
    say s!"覆盖目录: '{here}' -> '{there}'"
  else say s!"跳过已存在的非目录项: '{there}'"

/-- Merges one entry of a directory; `descend` merges two directories. -/
def mergeEntry (descend : String → String → Run Unit) (overwrite : Bool) (here there : String) :
    Run Unit := do
  if ← holdsFile here then mergeFile here there overwrite
  else if ← holdsDirectory here then
    if ← holdsDirectory there then descend here there
    else placeDirectory here there overwrite

def mergeWithin (overwrite : Bool) : Nat → String → String → Run Unit
  | 0, _, destination => fileFault destination .nameTooLong
  | depth + 1, source, destination => do
    let sourcePath := Path.Clean.ofText source
    let target := Path.Clean.ofText destination
    let here := sourcePath.toText
    let there := target.toText
    if !(← occupied here) then refuse (.sourceDirectoryMissing source)
    if !(← holdsDirectory here) then refuse (.sourceNotDirectory source)
    makeClean target.parent
    if !(← occupied there) then
      copyTree here there
      say s!"目录复制成功: '{here}' -> '{there}'"
    else if !(← holdsDirectory there) then refuse (.destinationNotDirectory destination)
    else
      (← listNames here).forM fun name =>
        mergeEntry (mergeWithin overwrite depth) overwrite (sourcePath.append name).toText
          (target.append name).toText
      say s!"目录合并完成: '{here}' -> '{there}'"

def mergeDirectories (source destination : String) (overwrite : Bool) : Run Unit :=
  mergeWithin overwrite FileTree.pathLimit source destination

end SceneText.Workspace
