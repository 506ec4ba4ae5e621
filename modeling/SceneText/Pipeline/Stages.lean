import SceneText.Json.Datum
import SceneText.Shell

/-!
# Stages of a project

Each stage says what it does, gives its command to the shell and says that it is done. Documents in
progress are kept in the directory for generated files.
-/

namespace SceneText.Pipeline

open Run

def stage (shell : Shell) (opening : List String) (command closing : String) : Run Unit := do
  sayAll opening
  shell.demand command
  say closing

def review (shell : Shell) : Run Unit :=
  stage shell ["开始 JSON 检查..."]
    "python utils_tools/json_check.py raw.json generated/translated.json" "JSON 检查完成"

def prepare (shell : Shell) (mode path : String) : Run Unit :=
  stage shell ["开始处理JSON文件...", s!"模式: {mode}, 文件: {path}"]
    s!"python utils_tools/json_processor.py {mode} \"{path}\"" "JSON文件处理完成"

def widen (shell : Shell) : Run Unit :=
  stage shell ["开始 ASCII 到全角字符转换..."] "python utils_tools/ascii_to_width.py" "ASCII 到全角字符转换完成"

def truncate (shell : Shell) : Run Unit :=
  stage shell ["开始截断..."] "python utils_tools/truncate.py" "截断完成"

def unwrap (shell : Shell) : Run Unit :=
  stage shell ["开始删除json的换行字符..."]
    "python utils_tools/auto_wrap.py remove_wrap raw.json raw.json" "删除json的换行字符完成"

def wrap (shell : Shell) : Run Unit :=
  stage shell ["开始自动进行换行..."]
    ("python utils_tools/auto_wrap.py auto_wrap generated/translated.json " ++
      "generated/translated.json")
    "自动进行换行完成"

def pad (shell : Shell) (pattern : String) (fallback : Option String)
    (sources targets : String) : Run Unit := do
  let filler := match fallback with
    | some byte => s!" \"{byte}\""
    | none => ""
  stage shell ["开始自动进行文件填充..."]
    (s!"python utils_tools/padding.py {sources} {targets} \"{pattern}\"" ++ filler)
    "自动进行文件填充完成"

structure Exclusion where
  sources : Bool := false
  message : Option Json := none
  rare : Bool := false

def writeExcluded (message : Json) : Run Unit := do
  say "生成排除消息文件..."
  makeDirectories true "generated"
  writeJson "generated/excluded.json" (.arr [.obj [("message", message)]])
  say "排除消息文件生成完成"

def poolCommand (encoding : String) (rare : Bool) (paths : List String) : String :=
  let filter := if rare then "--filter-rare" else ""
  let excluded := " ".intercalate (paths.map fun path => s!"--path \"{path}\"")
  "python ./utils_tools/replacement_tool.py generate-pool " ++
    "--output generated/replacement_pool.json " ++
    s!"{filter} --encoding \"{encoding}\" {excluded}"

def mapCommand : String :=
  "python ./utils_tools/replacement_tool.py map --path generated/translated.json " ++
    "--output generated --replacement-pool generated/replacement_pool.json"

/-- Makes a pool that leaves out what is in some documents, and maps the translated one with it. -/
def substituteFrom (shell : Shell) (encoding : String) (rare : Bool) (paths : List String) :
    Run Unit := do
  shell.demand (poolCommand encoding rare paths)
  say "替换池生成完成"
  say "应用替换映射..."
  shell.demand mapCommand
  say "替换映射应用完成"
  say "替换流程完成"

def substitute (shell : Shell) (encoding : String) (exclusion : Exclusion) : Run Unit := do
  say "开始替换流程..."
  say "生成替换池..."
  let paths := "generated/translated.json" ::
    (if exclusion.sources then ["generated/raw.json"] else [])
  let paths ← match exclusion.message with
    | none => pure paths
    | some message => do
      writeExcluded message
      pure (paths ++ ["generated/excluded.json"])
  substituteFrom shell encoding exclusion.rare paths

/-- Writes a document that holds what is handed over. No document holds a byte string: then only the
text in front of it is written. -/
def writeAround (path front : String) (document : Json → Json) (d : Datum) : Run Unit := do
  match d with
  | .plain v => writeJson path (document v)
  | .bytes _ =>
    writeText path front
    fail (.misuse (.notWritable d.kind))

def generateJson (document : Datum) (name : String) : Run Unit := do
  say s!"生成 {name}..."
  writeAround ("generated/" ++ name) "" id document

def generateEmptyTable (codePage : Datum) : Run Unit :=
  writeAround "generated/mapping.json" "\x7b\n  \"code_page\": "
    (fun v => .obj [("code_page", v), ("mapping", .obj [])]) codePage

end SceneText.Pipeline
