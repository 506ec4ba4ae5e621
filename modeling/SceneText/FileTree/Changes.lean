import SceneText.FileTree.Basic

/-!
# Changes between file trees

What has to be done to one tree to get another: what is gone is removed from the leaves up, new
directories and links are made from the root down, and files are written where they differ. Devices
are left alone.
-/

namespace SceneText.FileTree

inductive Change
  | removeFile (loc : Location)
  | removeDirectory (loc : Location)
  | makeDirectory (loc : Location)
  | makeLink (loc : Location) (target : String)
  | writeFile (loc : Location) (bytes : List UInt8) (readOnly : Bool)
  deriving DecidableEq, Repr

def hasDirectory (tree : FileTree) (loc : Location) : Bool :=
  tree.find? loc = some .directory

def hasFile (tree : FileTree) (loc : Location) : Bool :=
  match tree.find? loc with
  | some (.file _ _) => true
  | _ => false

def removal? (after : FileTree) : Location × Node → Option Change
  | (loc, .file _ _) => if after.hasFile loc then none else some (.removeFile loc)
  | (loc, .directory) => if after.hasDirectory loc then none else some (.removeDirectory loc)
  | (loc, .link target) =>
    if after.find? loc = some (.link target) then none else some (.removeFile loc)
  | _ => none

def making? (before : FileTree) : Location × Node → Option Change
  | (loc, .directory) => if before.hasDirectory loc then none else some (.makeDirectory loc)
  | (loc, .link target) =>
    if before.find? loc = some (.link target) then none else some (.makeLink loc target)
  | _ => none

def writing? (before : FileTree) : Location × Node → Option Change
  | (loc, .file bytes readOnly) =>
    if before.find? loc = some (.file bytes readOnly) then none
    else some (.writeFile loc bytes readOnly)
  | _ => none

def changes (before after : FileTree) : List Change :=
  let up := before.entries.mergeSort fun a b => b.1.length ≤ a.1.length
  let down := after.entries.mergeSort fun a b => a.1.length ≤ b.1.length
  up.filterMap (removal? after) ++ down.filterMap (making? before) ++
    down.filterMap (writing? before)

end SceneText.FileTree
