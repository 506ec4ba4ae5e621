import SceneText.Layout.Truncation
import SceneText.Tool.CommandLine

/-!
# Truncation tool

Truncates the translated document of a project against its source document, in place.
-/

namespace SceneText.TruncationTool

open Run

def sourcePath : String := "raw.json"

def translatedPath : String := "generated/translated.json"

/-- Runs a stage; if it fails, says so and gives up with the stage's exit code. -/
def stage {α : Type} (what : String) (code : Int) (x : Run α) : Run α := do
  match ← attempt x with
  | .ok v => return v
  | .error fault =>
    complain s!"{what}： {fault.message}"
    exit code

def main : Run Unit := do
  let (source, translated) ← stage "读取 JSON 失败" 1 do
    return (← readJson sourcePath, ← readJson translatedPath)
  let entries ← stage "处理失败" 2 (lift (Layout.fitEntries source translated))
  stage "写入失败" 3 (writeJson translatedPath (.arr entries))
  say s!"完成：处理 {entries.length} 项，输出 -> {translatedPath}"

end SceneText.TruncationTool
