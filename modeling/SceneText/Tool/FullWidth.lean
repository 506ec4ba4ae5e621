import SceneText.Layout.FullWidth
import SceneText.Tool.CommandLine

/-!
# Full-width tool

Widens names and messages of a document.
-/

namespace SceneText.FullWidthTool

open Run

def farewell (output : Arguments.Value) : String :=
  s!"处理完成！结果已保存到: {output.shown}"

def rewrite (input output : Arguments.Value) : Run Unit := do
  let document ← lift (Layout.widenDocument (← readJson (← pathOf input)))
  writeJson (← pathOf output) document
  say (farewell output)

def widenFile (input output : Arguments.Value) : Run Unit := do
  match ← attempt (rewrite input output) with
  | .ok _ => pure ()
  | .error fault =>
    if fault.isMissingFile then say s!"错误：找不到文件 {input.shown}"
    else if fault.isBadDocument then say s!"错误：{input.shown} 不是有效的JSON文件"
    else say s!"处理过程中出现错误: {fault.message}"

def main : Run Unit :=
  widenFile (some "generated/translated.json") (some "generated/translated.json")

end SceneText.FullWidthTool
