import SceneText.Layout.Measure
import SceneText.Tool.CommandLine

/-!
# Private characters

Lists the characters of the private use areas that the names and messages of a document use.
-/

namespace SceneText.PrivateCharactersTool

open Run

def areas : List (Nat × Nat) := [(0xe000, 0xf8ff), (0xf0000, 0xfffff), (0x100000, 0x10ffff)]

def isPrivate (c : Char) : Bool :=
  areas.any fun (low, high) => low ≤ c.toNat && c.toNat ≤ high

def charactersOf (entry : Json) (key : String) : Except Fault (List Char) := do
  if ← entry.has key then
    let v ← entry.field key
    if v.truthy then Layout.charsOf v else return []
  else return []

def privateOf (entry : Json) : Except Fault (List Char) := do
  let message ← charactersOf entry "message"
  let name ← charactersOf entry "name"
  return (message ++ name).filter isPrivate

def scan (path : String) : Run (List Char) := do
  let document ← readJson path
  let found ← lift ((← lift document.elements).mapM privateOf)
  return (found.flatten.mergeSort fun a b => a.toNat ≤ b.toNat).eraseDups

def describe (c : Char) : List String :=
  ["字符: " ++ String.singleton c, "Unicode码点: U+" ++ Hex.padded 4 c.toNat,
   "UTF-8编码: " ++ Hex.solid (Utf8.encode [c]),
   String.ofList (List.replicate 30 '-')]

def main : Run Unit := do
  let path := "raw.json"
  match ← attempt (scan path) with
  | .ok [] => say "文件中未找到私有字符"
  | .ok chars =>
    say s!"发现 {chars.length} 个不同的私有字符：\n"
    sayAll (chars.flatMap describe)
  | .error fault =>
    if fault.isMissingFile then say s!"错误: 文件 '{path}' 不存在"
    else if fault.isBadDocument then say s!"错误: JSON解析失败 - {fault.message}"
    else fail fault

end SceneText.PrivateCharactersTool
