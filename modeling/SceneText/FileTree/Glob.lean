import SceneText.FileTree.Operations
import SceneText.Text.Wildcard

/-!
# Paths by pattern

Finds the paths that match a pattern with wildcards in any of its parts. A wildcard never stands for
a slash, and names that start with a dot are matched only by patterns that do.
-/

namespace SceneText.FileTree

def isHidden (name : String) : Bool := Text.hasPrefix name "."

def matching (tree : FileTree) (workDir : Location) (directoriesOnly : Bool)
    (dir pattern : String) : List String :=
  let tokens := Wildcard.tokens pattern.toList
  let here := if dir.isEmpty then "." else dir
  (((tree.list workDir here).toOption.getD []).filter fun n =>
    (isHidden pattern || !isHidden n) &&
      (!directoriesOnly || tree.isDirectory workDir (Path.join dir n))).filter
    fun n => Wildcard.accepts tokens n.toList

def literally (tree : FileTree) (workDir : Location) (dir name : String) : List String :=
  if name.isEmpty then
    if tree.isDirectory workDir dir then [name] else []
  else if (tree.linkStat workDir (Path.join dir name)).toOption.isSome then [name]
  else []

def globWithin (tree : FileTree) (workDir : Location) :
    Nat → Bool → String → List String
  | 0, _, _ => []
  | fuel + 1, directoriesOnly, pattern =>
    let dir := Path.directory pattern
    let name := Path.base pattern
    if !Wildcard.isPattern pattern.toList then
      if name.isEmpty then
        if tree.isDirectory workDir dir then [pattern] else []
      else if (tree.linkStat workDir pattern).toOption.isSome then [pattern]
      else []
    else
      let dirs :=
        if dir ≠ pattern && Wildcard.isPattern dir.toList then
          tree.globWithin workDir fuel true dir
        else [dir]
      dirs.flatMap fun d =>
        let found :=
          if Wildcard.isPattern name.toList then tree.matching workDir directoriesOnly d name
          else tree.literally workDir d name
        found.map fun n => if d.isEmpty then n else Path.join d n

def glob (tree : FileTree) (workDir : Location) (pattern : String) : List String :=
  tree.globWithin workDir (pattern.length + 1) false pattern

end SceneText.FileTree
