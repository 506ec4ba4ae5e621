import SceneText.Session

/-!
# Renaming

Gives a file another name in its directory, and exchanges a part of the names of all files that end
in it.
-/

namespace SceneText.Workspace

open Run

def renameFile (path name : String) (overwrite : Bool) : Run Unit := do
  let target := Path.join (Path.directory path) name
  if ← present target then
    if !overwrite then refuse (.fileExists target)
    removeFile target
    say s!"已删除已存在的文件: {target}"
  rename path target
  say s!"文件重命名成功: {path} -> {target}"

structure Tally where
  renamed : Nat := 0
  failed : Nat := 0
  deriving DecidableEq, Repr

def exchanged (name : String) (before after : Json) : Except Fault String :=
  match before, after with
  | .str b, .str a => .ok (Text.replace name b a)
  | .str _, v => .error (.misuse (.notTextArgument "replace" "2" v.kind))
  | v, _ => .error (.misuse (.notTextArgument "replace" "1" v.kind))

def exchangeOne (before after : Json) (overwrite : Bool) (path : String) : Run Bool := do
  let name := Path.base path
  let changed ← lift (exchanged name before after)
  if name = changed then
    say s!"跳过文件 {name}（新旧文件名相同）"
    return false
  else
    renameFile path changed overwrite
    return true

def exchangeEach (before after : Json) (overwrite : Bool) (tally : Tally) :
    List String → Run Tally
  | [] => pure tally
  | path :: rest => do
    match ← attempt (exchangeOne before after overwrite path) with
    | .ok false => exchangeEach before after overwrite tally rest
    | .ok true =>
      exchangeEach before after overwrite { tally with renamed := tally.renamed + 1 } rest
    | .error fault =>
      say s!"重命名失败: {fault.message}"
      exchangeEach before after overwrite { tally with failed := tally.failed + 1 } rest

def exchangeEndings (dir : String) (before after : Json) (overwrite : Bool) : Run Unit := do
  let ending := before.shown
  if !(← present dir) then refuse (.directoryMissing dir)
  if !(← isDirectory dir) then refuse (.pathNotDirectory dir)
  let found ← query fun tree here => tree.glob here (Path.join dir ("*" ++ ending))
  if found.isEmpty then say s!"在目录 {dir} 中没有找到以 {ending} 结尾的文件"
  else
    say s!"找到 {found.length} 个以 {ending} 结尾的文件"
    let tally ← exchangeEach before after overwrite {} found
    say s!"操作完成: 成功 {tally.renamed} 个, 失败 {tally.failed} 个"

end SceneText.Workspace
