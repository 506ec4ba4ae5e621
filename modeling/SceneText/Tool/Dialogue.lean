import SceneText.Dialogue.Replacement
import SceneText.FileTree.NaturalOrder
import SceneText.Tool.CommandLine

/-!
# Dialogue tool

Takes the dialogue out of all listings of a directory into one document, and puts a translated
document back.
-/

namespace SceneText.DialogueTool

open Run Arguments

def extractFile (file : String) : Run (List Json) := do
  let lines ← lift (Dialogue.extract (← readJson file))
  return lines.map Dialogue.Line.toJson

def extractAll (dir output : Value) : Run Unit := do
  let lines := (← (← collectFiles (← pathOf dir) none).mapM extractFile).flatten
  say s!"提取了 {lines.length} 项"
  writeJson (← pathOf output) (.arr lines)

def writeListing (listing : List Json) (file : String) (output : Value) (root : String) :
    Run Unit := do
  let place ← relative file root
  let target := Path.join (← pathOf output) place
  makeDirectories true (Path.directory target)
  writeJson target (.arr listing)

def replaceFile (file : String) (texts : Json) (output : Value) (start : Int) (root : String) :
    Run Int := do
  let (listing, next) ← lift (Dialogue.replace (← readJson file) texts start)
  writeListing listing file output root
  return next

/-- Texts that fail as others do when they are asked for a place that is no number. -/
def unplaced (texts place : Json) : Json :=
  match texts.select place with
  | .error (.missingKey _) => .obj []
  | _ => .null

/-- Writes one listing with messages put in from a place given by any value. The place remains as it
is if no message is needed, and so does the root if it is left out. -/
def replaceFileFrom (file : String) (texts : Json) (output : Value) (start root : Json) :
    Run Json := do
  let listing ← readJson file
  let (rebuilt, next) ← match start.toInt? with
    | some n => do
      let (rebuilt, next) ← lift (Dialogue.replace listing texts n)
      pure (rebuilt, if next = n then start else .int next)
    | none => do
      let (rebuilt, _) ← lift (Dialogue.replace listing (unplaced texts start) 0)
      pure (rebuilt, start)
  let root ← match root with
    | .null => pure ""
    | .str s => pure s
    | v => fail (.misuse (.notPath v.kind))
  writeListing rebuilt file output root
  return next

def replaceFiles (texts : Json) (output : Value) (root : String) (start : Int) :
    List String → Run Int
  | [] => pure start
  | file :: rest => do
    let next ← replaceFile file texts output start root
    say s!"已处理: {file}"
    replaceFiles texts output root next rest

/-- Puts a document back into all listings; all of its messages must be used up. -/
def replaceAll (dir document output : Value) : Run Unit := do
  let texts ← readJson (← pathOf document)
  let dir ← pathOf dir
  let used ← replaceFiles texts output dir 0 (← collectFiles dir none)
  let count ← lift texts.size
  if used ≠ count then
    say s!"错误: 有 {count} 项译文，但只消耗了 {used}。"
    exit 1

def pathFlag : Arguments.Flag where
  spellings := ["--path"]
  name := "path"
  required := true

def commands : List (String × Arguments.Grammar) :=
  [("extract", { flags := [pathFlag, { spellings := ["--output"], name := "output" }] }),
   ("replace",
    { flags :=
        [pathFlag, { spellings := ["--text"], name := "text" },
         { spellings := ["--output-dir"], name := "output_dir" }] })]

def main (words : List String) : Run Unit := do
  let values ← arguments (Arguments.readCommand "command" true commands words)
  let path := values.one "path" ""
  if values.one? "command" = some "extract" then
    let output := values.one "output" "raw.json"
    extractAll path output
    say s!"提取完成! 结果保存到 {output.shown}"
  else
    let output := values.one "output_dir" "translated"
    replaceAll path (values.one "text" "translated.json") output
    say s!"替换完成! 结果保存到 {output.shown} 目录"

end SceneText.DialogueTool
