import SceneText.Review.Checks
import SceneText.Tool.CommandLine

/-!
# Review tool

Checks a translated document against its source document and prints what it finds.
-/

namespace SceneText.ReviewTool

open Run

def readAt (path : Json) : Run Json :=
  match path with
  | .str s => readJson s
  | v => fail (.misuse (.notPath v.kind))

def load (path : Json) : Run Json := do
  match ← attempt (readAt path) with
  | .ok v => return v
  | .error fault =>
    say s!"加载文件 {path.shown} 时出错: {fault.message}"
    exit 1

def reviewFiles (source translated : Json) : Run Bool := do
  let s ← load source
  let t ← load translated
  let (passed, lines) := Review.review s t
  if lines.isEmpty then say "所有检查通过!"
  else
    say "检查发现以下错误:"
    sayAll lines
  return passed

def main (words : List String) : Run Unit := do
  match words with
  | [source, translated] => exit (if ← reviewFiles (.str source) (.str translated) then 0 else 1)
  | _ =>
    say "用法: python json_checker.py <原文json文件> <译文json文件>"
    exit 1

end SceneText.ReviewTool
