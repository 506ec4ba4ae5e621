import SceneText.Text.Lowercase
import SceneText.Tool.CommandLine

/-!
# Comparison with a list of names

Lists the names in the source directory that a list of file names does not have.
-/

namespace SceneText.MissingTool

open Run

def namesFile : String := "filenames.txt"

def sourceDirectory : String := "raw"

def listedNames (text : List Char) : List String :=
  ((Text.feedLines text).map Text.trim).filterMap fun line =>
    if line.isEmpty then none else some (String.ofList (Text.lowerChars line))

def main : Run Unit := do
  let listed := listedNames (← readChars namesFile)
  if !(← isDirectory sourceDirectory) then say s!"错误：找不到目录 {sourceDirectory}"
  else
    let unlisted := (← listNames sourceDirectory).filter fun n => !listed.contains n
    if unlisted.isEmpty then say "✅ 所有文件都存在！"
    else
      say "以下文件在 raw 目录中缺失："
      sayAll unlisted
      say s!"\n共缺失 {unlisted.length} 个文件。"

end SceneText.MissingTool
