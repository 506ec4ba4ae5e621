import SceneText.Layout.Wrap
import SceneText.Tool.CommandLine

/-!
# Wrapping tool

Wraps or unwraps the messages of a document.
-/

namespace SceneText.WrapTool

open Run

def wrapFile (mode : Layout.WrapMode) (input output : Arguments.Value) : Run Unit := do
  let done ← attempt do
    let document ← readJson (← pathOf input)
    let entries ← lift (Layout.wrapEntries (some mode) (.int Layout.windowWidth) document)
    writeJson (← pathOf output) (.arr entries)
    say s!"处理完成！输出文件: {output.shown}"
  match done with
  | .ok _ => pure ()
  | .error fault =>
    if fault.isMissingFile then say s!"错误: 找不到文件 {input.shown}"
    else if fault.isBadDocument then say s!"错误: {input.shown} 不是有效的JSON文件"
    else say s!"处理过程中发生错误: {fault.message}"
    exit 1

def grammar : Arguments.Grammar where
  places := [{ name := "input_file" }, { name := "output_file" }]

def main (words : List String) : Run Unit := do
  let commands := [Layout.WrapMode.wrap, .unwrap].map fun m => (m.name, grammar)
  let values ← arguments (Arguments.readCommand "command" true commands words)
  let mode := (Layout.WrapMode.ofName? ((values.one? "command").getD "")).getD .unwrap
  wrapFile mode (values.one "input_file" "") (values.one "output_file" "")

end SceneText.WrapTool
