import SceneText.Tool.CommandLine

/-!
# Padding tool

Fills every file of a translated directory up to the size of its counterpart in the source
directory, with a repeated pattern or, if the pattern is empty, with one byte.
-/

namespace SceneText.PaddingTool

open Run

def periodic (pattern : List UInt8) (n : Nat) : List UInt8 :=
  (List.replicate (n / pattern.length) pattern).flatten ++ pattern.take (n % pattern.length)

def readPattern (text : String) : Run (List UInt8) := do
  let bare := text.toList.filter (· ≠ ' ')
  let result : Except Fault (List UInt8) :=
    if bare.length % 2 ≠ 0 then .error (.refused .oddHexLength)
    else match Hex.read bare with
      | .ok bytes => .ok bytes
      | .error position => .error (.notHex position)
  match result with
  | .ok bytes => return bytes
  | .error fault =>
    say s!"错误：无法解析十六进制字符串 '{String.ofList bare}': {fault.message}"
    exit 1

structure Filling where
  pattern : List UInt8
  fallback : Option UInt8
  deriving DecidableEq, Repr

/-- What fills the file at a path up. -/
def fillingFor (filling : Filling) (path : String) (count : Nat) : Run (List UInt8) := do
  if !filling.pattern.isEmpty then
    let bytes := periodic filling.pattern count
    if bytes.length = count then
      say "  使用模式字节完美填充"
      return bytes
    else match filling.fallback with
      | some b =>
        say "  使用模式字节和备用字节填充"
        return bytes ++ List.replicate (count - bytes.length) b
      | none =>
        say s!"错误：无法用模式字节完美填充文件 '{path}'，且未提供备用填充字节"
        exit 1
  else match filling.fallback with
    | some b =>
      say "  使用备用字节填充"
      return List.replicate count b
    | none =>
      say "错误：模式字节为空且未提供备用填充字节"
      exit 1

def extend (path : String) (bytes : List UInt8) (size : Nat) : Run Unit := do
  let done ← attempt do
    appendBytes path bytes
    let reached ← sizeOf path
    if reached ≠ size then
      say s!"错误：填充后文件大小不匹配，期望 {size} 字节，实际 {reached} 字节"
      exit 1
    say s!"  填充完成，新大小: {reached} 字节"
  match done with
  | .ok _ => pure ()
  | .error fault =>
    say s!"错误：处理文件 '{path}' 时发生异常: {fault.message}"
    exit 1

def padFile (raw translated : String) (filling : Filling) (path : String) : Run Unit := do
  let rel ← relative path translated
  let counterpart := Path.join raw rel
  if !(← present counterpart) then
    say s!"错误：找不到对应的原始文件 '{counterpart}'"
    exit 1
  let wanted ← sizeOf counterpart
  let size ← sizeOf path
  if size > wanted then
    say (s!"错误：翻译文件 '{path}' ({size} 字节) 大于原始文件 " ++ s!"'{counterpart}' ({wanted} 字节)")
    exit 1
  if size ≠ wanted then
    say s!"处理文件: {rel}"
    say s!"  原始大小: {wanted} 字节"
    say s!"  当前大小: {size} 字节"
    say s!"  需要填充: {wanted - size} 字节"
    extend path (← fillingFor filling path (wanted - size)) wanted

def readFallback (text : String) : Run (Option UInt8) := do
  if text.isEmpty then return none
  match ← readPattern text with
  | [b] => return some b
  | bytes =>
    say s!"错误：备用填充字节必须是单字节，但得到 {bytes.length} 字节"
    exit 1

def grammar : Arguments.Grammar where
  places := [{ name := "raw" }, { name := "translated" }, { name := "pattern" },
     { name := "fallback", optional := true }]

def main (words : List String) : Run Unit := do
  let values ← arguments (grammar.read words)
  let raw ← pathOf (values.one "raw" "")
  if !(← isDirectory raw) then
    say s!"错误：原始目录 '{raw}' 不存在"
    exit 1
  let translated ← pathOf (values.one "translated" "")
  if !(← isDirectory translated) then
    say s!"错误：翻译目录 '{translated}' 不存在"
    exit 1
  let pattern ← match values.one "pattern" "" with
    | some text => readPattern text
    | none => fail (.misuse (.noOperation "list" "replace"))
  let fallback ← readFallback ((values.one? "fallback").getD "")
  (← walk translated).forM fun visit =>
    visit.files.forM fun file =>
      padFile raw translated ⟨pattern, fallback⟩ (Path.join visit.path file)
  say "所有文件处理完成！"

end SceneText.PaddingTool
