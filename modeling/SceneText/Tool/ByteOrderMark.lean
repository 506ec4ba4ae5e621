import SceneText.Tool.CommandLine

/-!
# Byte order marks

Removes the two-byte mark from the head of every file of a directory. Files without a mark are
reported at the end.
-/

namespace SceneText.ByteOrderMarkTool

open Run

def stripFile (dir name : String) : Run (Option String) := do
  let path := Path.join dir name
  let done ← attempt do
    match ← readBytes path with
    | 0xff :: 0xfe :: rest =>
      writeBytes path rest
      say s!"✓ 已删除BOM: {name}"
      return none
    | 0xfe :: 0xff :: rest =>
      writeBytes path rest
      say s!"✓ 已删除BOM (UTF-16 BE): {name}"
      return none
    | _ =>
      say s!"✗ 没有BOM: {name}"
      return some name
  match done with
  | .ok failure => return failure
  | .error fault =>
    say s!"✗ 处理失败: {name} - {fault.message}"
    return some s!"{name} (错误: {fault.message})"

def strip (dir : String) : Run Unit := do
  if !(← present dir) then refuse (.directoryMissing dir)
  if !(← isDirectory dir) then refuse (.pathNotDirectory dir)
  let files ← (← listNames dir).filterM fun name => isFile (Path.join dir name)
  if files.isEmpty then say "目录中没有文件"
  else
    let failures := (← files.mapM (stripFile dir)).filterMap id
    say "\n=== 处理完成 ==="
    say s!"成功处理: {files.length - failures.length} 个文件"
    if !failures.isEmpty then
      say s!"失败文件 ({failures.length} 个):"
      failures.forM fun f => say s!"  - {f}"
      refuse (.filesWithoutMark failures.length)

def grammar : Arguments.Grammar where
  places := [{ name := "directory" }]

def main (words : List String) : Run Unit := do
  let values ← arguments (grammar.read words)
  let done ← attempt do
    strip (← pathOf (values.one "directory" ""))
    say "\n✅ 所有文件处理成功！"
  match done with
  | .ok _ => pure ()
  | .error fault =>
    say s!"\n❌ 处理失败: {fault.message}"
    exit 1

end SceneText.ByteOrderMarkTool
