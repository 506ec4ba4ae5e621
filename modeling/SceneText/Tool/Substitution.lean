import SceneText.Substitution.Pool
import SceneText.Tool.CommandLine

/-!
# Substitution tool

Makes pools of stand-ins for a set of documents and maps documents with a pool.
-/

namespace SceneText.SubstitutionTool

open Run

def documentsBelow (path : Path.Clean) : Run (List String) := do
  let found ← (← walk path.toText).mapM fun visit => do
    let names := (← listNames visit.path).filter fun n => Text.hasSuffix n ".json"
    return names.map fun n => ((Path.Clean.ofText visit.path).append n).toText
  return found.flatten

def collect (paths : List String) : Run (List String) := do
  let found ← paths.mapM fun p => do
    let path := Path.Clean.ofText p
    if ← holdsDirectory path.toText then documentsBelow path else return [path.toText]
  return found.flatten

def load (path : String) : Run (Json × Pool) := do
  let document ← readJson (Path.Clean.ofText path).toText
  let pool ← lift (Pool.ofJson document)
  return (← lift (document.field "pool"), pool)

def makePool (paths : List String) (output : String) (cs : Charset) : Run Unit := do
  let used ← paths.mapM fun p => do
    let document ← readJson (Path.Clean.ofText p).toText
    lift (Pool.charactersOfEntries (← lift document.elements))
  let chars := Pool.unused cs used.flatten
  let output := (Path.Clean.ofText output).toText
  writeJson output (Pool.document cs chars)
  say s!"成功生成替身池，字符数: {chars.length}"
  say s!"保存到: {output}"

def mapDocument (pool : Pool) (document : Json) : Run (Json × Pool) := do
  match pool.mapEntries (← lift document.elements), document with
  | (.ok entries, pool), .arr _ => return (.arr entries, pool)
  | (.ok _, pool), v => return (v, pool)
  | (.error fault, _), _ => fail fault

def mapFiles (target : Path.Clean) (pool : Pool) : List String → Run Pool
  | [] => pure pool
  | p :: rest => do
    let path := Path.Clean.ofText p
    let (document, pool) ← mapDocument pool (← readJson path.toText)
    writeJson (target.append path.name).toText document
    mapFiles target pool rest

def map (paths : List String) (output poolPath : String) : Run Unit := do
  let (_, pool) ← load poolPath
  let target := Path.Clean.ofText output
  makeClean target
  let pool ← mapFiles target pool paths
  writeJson (target.append "mapping.json").toText pool.tableJson
  say "处理完成"
  say s!"输出目录: {target.toText}"
  say "字符映射表: mapping.json"

def pathFlag : Arguments.Flag where
  spellings := ["--path"]
  name := "path"
  arity := .many
  required := true

def commands : List (String × Arguments.Grammar) :=
  [("map",
    { flags :=
        [pathFlag, { spellings := ["--output"], name := "output" },
         { spellings := ["--replacement-pool"], name := "pool" }] }),
   ("generate-pool",
    { flags :=
        [pathFlag, { spellings := ["--output"], name := "output" },
         { spellings := ["--encoding"], name := "encoding",
           allowed := .words (Charset.all.map Charset.name) }] })]

def main (words : List String) : Run Unit := do
  let values ← arguments (Arguments.readCommand "command" true commands words)
  let paths ← collect (values.many "path")
  if values.one? "command" = some "map" then
    let output ← pathOf (values.one "output" "./replaced/")
    map paths output (← pathOf (values.one "pool" "replacement_pool.json"))
  else
    let output ← pathOf (values.one "output" "replacement_pool.json")
    match (values.one "encoding" Charset.cp932.name).bind Charset.ofName? with
    | some cs => makePool paths output cs
    | none => fail (.unknownCharset (values.one "encoding" "").shown)

end SceneText.SubstitutionTool
