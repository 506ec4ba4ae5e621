import SceneText.Entry.Preparation
import SceneText.Tool.CommandLine

/-!
# Preparation tool

Prepares all entries of a document in place.
-/

namespace SceneText.PreparationTool

open Run

def load (path : String) : Run Json := do
  match ← attempt (readJson path) with
  | .ok v => return v
  | .error fault =>
    say s!"加载文件 {path} 时出错: {fault.message}"
    exit 1

def save (path : String) (document : Json) : Run Unit := do
  match ← attempt (writeJson path document) with
  | .ok _ => pure ()
  | .error fault =>
    say s!"保存文件 {path} 时出错: {fault.message}"
    exit 1

def wordList (words : List String) : String :=
  (Json.arr (words.map .str)).literal

def prepare (modeName path : String) : Run Unit := do
  let document ← load path
  match Entry.Mode.ofName? modeName with
  | none =>
    say s!"错误: 不支持的模式 '{modeName}'"
    say s!"支持的模式: {wordList (Entry.Mode.all.map Entry.Mode.name)}"
    exit 1
  | some mode =>
    let prepared := Entry.prepareAll mode.steps (← lift document.elements)
    sayAll prepared.said
    match prepared.stop with
    | some stop => throw stop
    | none =>
      save path (match document with
        | .arr _ => .arr prepared.entries
        | other => other)
      say s!"处理完成! 模式: {modeName}, 文件: {path}"
      say s!"处理了 {prepared.entries.length} 个条目，执行了 {mode.steps.length} 个处理函数"
      say s!"当前支持的标记类型: {wordList (Entry.tags.map Prod.fst)}"

def main (words : List String) : Run Unit :=
  match words with
  | [mode, path] => prepare mode path
  | _ => do
    sayAll ["用法: python json_processor.py <模式:e/r> <json文件路径>", "示例:",
       "  python json_processor.py e data.json  # 转义模式",
       "  python json_processor.py r data.json  # 反转义模式（自动处理嵌套括号）"]
    exit 1

end SceneText.PreparationTool
