import SceneText.Charset.Encoding
import SceneText.Layout.Shortening
import SceneText.Layout.Truncation
import SceneText.Tool.CommandLine

/-!
# Length tool

Compares translated messages with their sources and marks those that are too long, or
shortens them and marks what is still too long.
-/

namespace SceneText.LengthsTool

open Run Layout Arguments

def charset? (label : String) : Option String :=
  let folded := Text.lower label
  if ["cp932", "shiftjis", "shift_jis"].contains folded then some "cp932"
  else if folded = "gbk" then some "gbk"
  else none

def charsetFor (label : Datum) : Run String := do
  let found ← match label with
    | .plain v => pure (charset? (← lift (v.asText "lower")))
    | .bytes _ => pure none
  match found with
  | some name => return name
  | none =>
    say s!"未知编码 {label.shown}"
    exit 1

def labelOf : Value → Datum
  | some text => .plain (.str text)
  | none => .plain (.arr [])

def storedLength (text : List Char) (encoding : String) : Run Nat := do
  if encoding.toList.contains '\x00' then fail .zeroInName
  match Encoding.ofName? encoding with
  | some e => return e.lossySize text
  | none =>
    say s!"错误: 未知的编码 '{encoding}'"
    exit 1

def sourceLength (message : Json) (measure : Measure) (encoding : String) : Run Nat := do
  match measure, message with
  | .chars, v => lift v.size
  | .cells, .str s => storedLength s.toList encoding
  | .cells, v => fail (.misuse (.noOperation v.kind "encode"))

inductive Behaviour
  /-- They are left as they are, and nothing is reported. -/
  | idle
  | check
  | fix
  | drastic
  deriving DecidableEq, Repr

namespace Behaviour

def all : List Behaviour := [.check, .fix, .drastic]

def name : Behaviour → String
  | .idle => ""
  | .check => "check"
  | .fix => "fix"
  | .drastic => "aggressive-fix"

def ofValue (value : Value) : Behaviour :=
  (all.find? fun b => some b.name = value).getD .idle

end Behaviour

structure Settings where
  measure : Measure
  behaviour : Behaviour
  encoding : String

structure Tally where
  marked : Nat := 0
  fixed : Nat := 0
  skipped : Nat := 0
  deriving DecidableEq, Repr

def statedLength (v : Json) : Except Fault (Option Int) :=
  match v with
  | .int n => .ok (some n)
  | .bool b => .ok (some (if b then 1 else 0))
  | .real x =>
    match x.value with
    | .nan => .error .notANumber
    | .infinite _ => .error .infiniteNumber
    | value => .ok value.truncate?
  | _ => .ok none

def roomFor (settings : Settings) (source : Json) : Run Int := do
  let message ← lift (source.get "message" (.str ""))
  match ← lift (statedLength (← lift (source.get "message_orig_len" .null))) with
  | some n => return n
  | none => return (← sourceLength message settings.measure settings.encoding)

def markEntry (i : Nat) (room : Int) (length : Nat) (entry : Json) : Run Json := do
  let entry ← lift (entry.put "error" (.str s!"原文 {room} < 译文 {length}"))
  complain s!"第 {i} 项: 插入 error 字段（原:{room} 译:{length}）"
  return entry

def fixEntry (settings : Settings) (i : Nat) (room : Int) (message entry : Json) :
    Run (Json × Bool) := do
  let drastic : Bool := settings.behaviour = .drastic
  let (short, fits) ← lift (shortenValue settings.measure (.int room) drastic message)
  let entry ← lift (entry.put "message" short)
  let length ← lift (settings.measure.lengthOf short)
  if fits then
    let entry ← if ← lift (entry.has "error") then lift (entry.remove "error") else pure entry
    let word := if drastic then "激进" else "自动"
    complain s!"第 {i} 项: {word}修复成功（原:{room} 修后:{length}）"
    return (entry, true)
  else if drastic then
    let entry ← lift (entry.put "error" (.str s!"原文 {room} < 译文 {length}（激进修复后仍超长）"))
    complain s!"第 {i} 项: 激进修复后仍超长（原:{room} 修后:{length}）"
    return (entry, false)
  else return (← markEntry i room length entry, false)

def skipEntry (i : Nat) (entry : Json) : Run Json := do
  if ← lift (entry.has "error") then
    say s!"第 {i} 项: 跳过检查（length_unbounded=true），移除已有的 error 字段"
    lift (entry.remove "error")
  else
    say s!"第 {i} 项: 跳过检查（length_unbounded=true）"
    return entry

def clearEntry (i : Nat) (room : Int) (length : Nat) (entry : Json) : Run Json := do
  if ← lift (entry.has "error") then
    complain s!"第 {i} 项: 移除已有的 error 字段（原:{room} 译:{length}）"
    lift (entry.remove "error")
  else return entry

def processEntry (settings : Settings) (i : Nat) (source entry : Json) (tally : Tally) :
    Run (Json × Tally) := do
  if ← lift (isUnbounded source) then
    return (← skipEntry i entry, { tally with skipped := tally.skipped + 1 })
  else
    let _ ← lift (source.get "message" (.str ""))
    let message ← lift (entry.get "message" (.str ""))
    let room ← roomFor settings source
    let length ← lift (settings.measure.lengthOf message)
    if (length : Int) ≤ room then return (← clearEntry i room length entry, tally)
    else match settings.behaviour with
      | .idle => return (entry, tally)
      | .check =>
        return (← markEntry i room length entry, { tally with marked := tally.marked + 1 })
      | _ =>
        let (entry, fits) ← fixEntry settings i room message entry
        if fits then return (entry, { tally with fixed := tally.fixed + 1 })
        else return (entry, { tally with marked := tally.marked + 1 })

def processEntries (settings : Settings) (i : Nat) (tally : Tally) :
    List (Json × Json) → Run (List Json × Tally)
  | [] => pure ([], tally)
  | (source, entry) :: rest => do
    let (entry, tally) ← processEntry settings i source entry tally
    let (entries, tally) ← processEntries settings (i + 1) tally rest
    return (entry :: entries, tally)

def summary (behaviour : Behaviour) (output : String) (t : Tally) : List String :=
  match behaviour with
  | .idle => []
  | .check =>
    if t.marked > 0 then [s!"已写回 {output}（已标注 {t.marked} 项超长，跳过 {t.skipped} 项）。"]
    else [s!"检查成功：未发现超长译文，文件已写回（清除可能存在的 error 字段，跳过 {t.skipped} 项）。"]
  | .fix =>
    (if t.fixed > 0 then
      [s!"已自动修复 {t.fixed} 项超长译文，输出到: {output}（跳过 {t.skipped} 项）"] else []) ++
    (if t.marked > 0 then [s!"仍有 {t.marked} 项无法自动修复，需要人工处理。"]
      else [s!"所有超长译文已自动修复，输出到: {output}（跳过 {t.skipped} 项）"])
  | .drastic =>
    let total := t.fixed + t.marked
    if total > 0 then
      [s!"已激进修复 {total} 项超长译文（其中 {t.fixed} 项完全修复，{t.marked} 项修复后仍超长），" ++
        s!"输出到: {output}（跳过 {t.skipped} 项）"]
    else [s!"无需激进修复，文件已输出到: {output}（跳过 {t.skipped} 项）"]

def outputPath (behaviour : Behaviour) (translated : Path.Clean) : Run String :=
  match behaviour with
  | .idle | .check => pure translated.toText
  | _ =>
    if translated.name.isEmpty then fail (.namelessPath translated.toText)
    else pure (translated.withName (translated.stem ++ "_modified" ++ translated.suffix)).toText

def load (path : Value) : Run Json := do
  readJson (Path.Clean.ofText (← pathOf path)).toText

def loadBoth (source translated : Value) : Run (Json × Json) := do
  match ← attempt (do return (← load source, ← load translated)) with
  | .ok both => return both
  | .error fault =>
    say s!"读取或解析 JSON 文件失败: {fault.message}"
    exit 1

def conclude (behaviour : Behaviour) (translated : Path.Clean) (entries : List Json)
    (tally : Tally) : Run Unit := do
  let output ← outputPath behaviour translated
  match ← attempt (writeJson output (.arr entries)) with
  | .ok _ => sayAll (summary behaviour output tally)
  | .error fault =>
    say s!"写入文件失败: {fault.message}"
    exit 1

def process (settings : Settings) (source translated : Value) : Run Unit := do
  match ← loadBoth source translated with
  | (.arr sources, .arr entries) =>
    if sources.length ≠ entries.length then
      say s!"错误: 数组长度不一致 (原文: {sources.length}, 译文: {entries.length})"
      exit 1
    let (entries, tally) ← processEntries settings 0 {} (sources.zip entries)
    conclude settings.behaviour (Path.Clean.ofText (← pathOf translated)) entries tally
  | _ =>
    say "错误: JSON 顶层必须是数组"
    exit 1

def grammar : Arguments.Grammar where
  flags :=
    [{ spellings := ["--orig", "-o"], name := "orig", required := true },
     { spellings := ["--trans", "-t"], name := "trans", required := true },
     { spellings := ["--method", "-m"], name := "method", allowed := .words ["pseudo", "chars"] },
     { spellings := ["--behave", "-b"], name := "behave",
       allowed := .words (Behaviour.all.map Behaviour.name) },
     { spellings := ["--encoding"], name := "encoding" }]

def main (words : List String) : Run Unit := do
  let values ← arguments (grammar.read words)
  let settings : Settings :=
    { measure := Measure.ofName ((values.one "method" "pseudo").getD "")
      behaviour := Behaviour.ofValue (values.one "behave" "check")
      encoding := ← charsetFor (labelOf (values.one "encoding" "CP932")) }
  process settings (values.one "orig" "") (values.one "trans" "")

end SceneText.LengthsTool
