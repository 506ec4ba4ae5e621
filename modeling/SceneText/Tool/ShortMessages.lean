import SceneText.Layout.Limit
import SceneText.Tool.CommandLine

/-!
# Short messages

Keeps the messages without a speaker that are not longer than a limit, each once.
-/

namespace SceneText.ShortMessagesTool

open Run

def remembered (message : Json) : Except Fault String :=
  match message with
  | .str s => .ok s
  | v => .error (.misuse (.notKey v.kind))

def filterFrom (limit : Json) (seen : List String) : List Json → Except Fault (List String)
  | [] => .ok []
  | entry :: rest => do
    let named ← entry.has "name"
    let message ← entry.field "message"
    let length ← message.size
    if (← Layout.Limit.ofJson "<=" limit).admits length then
      let text ← remembered message
      if seen.contains text || named then filterFrom limit seen rest
      else return text :: (← filterFrom limit (seen ++ [text]) rest)
    else filterFrom limit seen rest

def filterMessages (entries limit : Json) : Except Fault (List Json) := do
  let texts ← filterFrom limit [] (← entries.elements)
  return texts.map fun t => .obj [("message", .str t)]

def grammar : Arguments.Grammar where
  flags := [{ spellings := ["--output"], name := "output" }]
  places := [{ name := "input" }, { name := "length", allowed := .numeral }]

def main (words : List String) : Run Unit := do
  let values ← arguments (grammar.read words)
  let input := values.one "input" ""
  let output := values.one "output" "outname.json"
  let limit := match values.one "length" "" with
    | some text => .int ((Numeral.read text.toList).toOption.getD 0)
    | none => .arr []
  let done ← attempt do
    let kept ← lift (filterMessages (← readJson (← pathOf input)) limit)
    writeJson (← pathOf output) (.arr kept)
    say s!"处理完成！共保留 {kept.length} 条消息，已保存到 {output.shown}"
  match done with
  | .ok _ => pure ()
  | .error fault =>
    if fault.isMissingFile then say s!"错误：找不到输入文件 {input.shown}"
    else if fault.isBadDocument then say s!"错误：文件 {input.shown} 不是有效的JSON格式"
    else say s!"处理过程中发生错误：{fault.message}"

end SceneText.ShortMessagesTool
