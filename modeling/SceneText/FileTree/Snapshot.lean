import SceneText.FileTree.Basic

/-!
# Snapshots of file trees

What is to be seen below a directory, by path from there. A directory's path ends in a slash, and so
does that of a link to one. Two snapshots differ by what is new or other in the later one and by
what is gone from it.
-/

namespace SceneText.FileTree

inductive Sight
  | file (bytes : List UInt8)
  | link (target : String)
  | directory
  deriving DecidableEq, Repr

/-- What is seen at a path, with the path as it is shown. Devices are not seen. -/
def sight? (tree : FileTree) (root : Location) (path : String) : Node → Option (String × Sight)
  | .file bytes _ => some (path, .file bytes)
  | .directory => some (path ++ "/", .directory)
  | .link target =>
    if tree.isDirectory root path then some (path ++ "/", .directory)
    else some (path, .link target)
  | .device => none

def snapshot (tree : FileTree) (root : Location) : List (String × Sight) :=
  tree.entries.filterMap fun (loc, node) =>
    if root.isPrefixOf loc && root.length < loc.length then
      tree.sight? root ("/".intercalate (loc.drop root.length)) node
    else none

structure Difference where
  changed : List (String × Sight)
  gone : List String
  deriving Repr

def difference (before after : List (String × Sight)) : Difference :=
  let old := Std.HashMap.ofList before
  let new := Std.HashMap.ofList after
  { changed := after.filter fun s => old[s.1]? ≠ some s.2
    gone := (before.map Prod.fst).filter fun path => !new.contains path }

def plant (tree : FileTree) (loc : Location) (node : Node) : FileTree :=
  let above := (List.range loc.length).map fun n => loc.take n
  let made := above.foldl (fun t dir =>
    if dir.isEmpty || (t.find? dir).isSome then t else t.insert dir .directory) tree
  made.insert loc node

end SceneText.FileTree
