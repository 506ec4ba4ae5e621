import SceneText.FileTree.NaturalOrder
import SceneText.Tool.CommandLine

/-!
# Merging and splitting documents

Merges the documents of a directory into one whose entries name the file they came from, and splits
such a document into files again.
-/

namespace SceneText.MergeSplitTool

open Run Arguments

def labelled (path : String) (document : Json) : Except Fault (List Json) :=
  match document with
  | .arr items =>
    let name := (Path.Clean.ofText path).name
    items.mapM fun item =>
      match item with
      | .obj fields => .ok (.obj (Json.setField "file" (.str name) fields))
      | _ => .error (.refused (.fileItemNotRecord path))
  | _ => .error (.refused (.fileNotList path))

def loadLabelled (path : String) : Run (List Json) := do
  if ← isFile path then lift (labelled path (← readJson path)) else return []

def merge (dir output : Value) : Run Unit := do
  let entries ← (← collectFiles (← pathOf dir) (some "json")).mapM loadLabelled
  writeJson (← pathOf output) (.arr entries.flatten)

def addToGroup (file entry : Json) : List (Json × List Json) → List (Json × List Json)
  | [] => [(file, [entry])]
  | (f, entries) :: rest =>
    if f.sameKey file then (f, entries ++ [entry]) :: rest
    else (f, entries) :: addToGroup file entry rest

def groupByFile (groups : List (Json × List Json)) : List Json →
    Except Fault (List (Json × List Json))
  | [] => .ok groups
  | .obj fields :: rest =>
    let file := (fields.lookup "file").getD .null
    if !file.truthy then .error (.refused .mergedItemWithoutFile)
    else do
      let file ← file.asKey
      groupByFile (addToGroup file (.obj (Json.dropField "file" fields)) groups) rest
  | _ :: _ => .error (.refused .mergedItemNotRecord)

def writeGroup (dir : String) (group : Json × List Json) : Run Unit :=
  match group.1 with
  | .str name => writeJson (Path.join dir name) (.arr group.2)
  | v => fail (.misuse (.notPath v.kind))

def split (input dir : Value) : Run Unit := do
  match ← readJson (← pathOf input) with
  | .arr items =>
    let groups ← lift (groupByFile [] items)
    let dir ← pathOf dir
    makeDirectories true dir
    groups.forM (writeGroup dir)
  | _ => refuse .mergedNotList

def commands : List (String × Arguments.Grammar) :=
  [("merge", { places := [{ name := "input_dir" }, { name := "output" }] }),
   ("split", { places := [{ name := "input" }, { name := "output_dir" }] })]

def main (words : List String) : Run Unit := do
  let values ← arguments (Arguments.readCommand "mode" true commands words)
  if values.one? "mode" = some "merge" then
    merge (values.one "input_dir" "") (values.one "output" "")
  else split (values.one "input" "") (values.one "output_dir" "")

end SceneText.MergeSplitTool
