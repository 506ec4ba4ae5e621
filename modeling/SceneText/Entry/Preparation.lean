import SceneText.Entry.Brackets
import SceneText.Json.Access

/-!
# Preparing entries

Entries are prepared for translators after extraction and cleaned up before replacement, by steps
that each change one entry. A step says what it did; it may also refuse the entry, and keeps what it
had changed until then.
-/

namespace SceneText.Entry

/-- An entry after a step: its state, the lines the step wrote, and why it stopped, if it did. -/
structure Outcome where
  entry : Json
  said : List String := []
  stop : Option Stop := none

namespace Outcome

def ofExcept (entry : Json) (result : Except Fault Outcome) : Outcome :=
  match result with
  | .ok outcome => outcome
  | .error fault => { entry := entry, stop := some (.fault fault) }

def andThen (o : Outcome) (step : Json → Outcome) : Outcome :=
  match o.stop with
  | some _ => o
  | none =>
    let next := step o.entry
    { next with said := o.said ++ next.said }

end Outcome

def tags : List (String × String) :=
  [("is_select", "[select]"), ("is_title", "[title]")]

def textField (entry : Json) (key : String) : Except Fault (Option String) := do
  if ← entry.has key then
    match ← entry.field key with
    | .str s => return some s
    | _ => return none
  else return none

def changeField (rule : String → String × List String) (key : String) (entry : Json) : Outcome :=
  .ofExcept entry do
    match ← textField entry key with
    | none => return { entry := entry }
    | some text =>
      let (text, said) := rule text
      return { entry := ← entry.put key (.str text), said := said }

def changeQuietly (rule : String → String) (entry : Json) : Outcome :=
  (changeField (fun t => (rule t, [])) "message" entry).andThen
    (changeField (fun t => (rule t, [])) "name")

def isSet (entry : Json) (key : String) : Except Fault Bool := do
  if ← entry.has key then return (← entry.field key).isTrue else return false

def wideBlank : String := "　"

def markBlank (entry : Json) : Outcome :=
  .ofExcept entry do
    match ← entry.get "message" (.str "") with
    | .str s =>
      if Text.hasPrefix s wideBlank then
        return { entry := ← entry.put "need_whitespace" (.bool true) }
      else return { entry := entry }
    | _ => return { entry := entry }

def restoreBlank (entry : Json) : Outcome :=
  .ofExcept entry do
    if ← isSet entry "need_whitespace" then
      match ← entry.field "message" with
      | .str s =>
        if Text.hasPrefix s wideBlank then return { entry := entry }
        else return { entry := ← entry.put "message" (.str (wideBlank ++ s)) }
      | v => .error (.misuse (.noOperation v.kind "startswith"))
    else return { entry := entry }

def taggable (v : Json) : Except Fault String :=
  match v with
  | .str s => .ok s
  | v => .error (.misuse (.noOperation v.kind "startswith"))

/-- Adds the tags that the fields call for; a tag that is there already is not added again. -/
def tagMessage (entry : Json) : List (String × String) → Json → Except Fault (Json × List String)
  | [], message => .ok (message, [])
  | (key, tag) :: rest, message => do
    if ← isSet entry key then
      let text ← taggable message
      if Text.hasPrefix text tag then
        let (message, said) ← tagMessage entry rest message
        return (message, s!"  跳过添加标记: message字段已以{tag}开头 (基于字段 {key})" :: said)
      else
        let (message, said) ← tagMessage entry rest (.str (tag ++ text))
        return (message, s!"  添加标记: 在message字段前添加了{tag} (基于字段 {key})" :: said)
    else tagMessage entry rest message

def storeMessage (entry before after : Json) (said : List String) : Except Fault Outcome := do
  match before, after with
  | .str a, .str b =>
    if a = b then return { entry := entry, said := said }
    else
      return { entry := ← entry.put "message" after,
               said := said ++ [s!"    原始消息: {a}", s!"    处理后消息: {b}"] }
  | _, _ => return { entry := entry, said := said }

def addTags (entry : Json) : Outcome :=
  .ofExcept entry do
    let before ← entry.get "message" (.str "")
    let (after, said) ← tagMessage entry tags before
    storeMessage entry before after said

/-- Takes off the tags that the fields call for. `none` if one of them is not at the head. -/
def untagMessage (entry : Json) :
    List (String × String) → Json → Except Fault (Option Json × List String)
  | [], message => .ok (some message, [])
  | (key, tag) :: rest, message => do
    if ← isSet entry key then
      let text ← taggable message
      if Text.hasPrefix text tag then
        let bare := String.ofList (text.toList.drop tag.length)
        let (message, said) ← untagMessage entry rest (.str bare)
        return (message, s!"  移除标记: 成功移除了message字段开头的{tag} (基于字段 {key})" :: said)
      else
        return (none, [s!"  错误: {key}字段为True，但message字段未以{tag}开头", s!"    当前message: {text}",
           "  处理中断: 在条目中发现不一致的标记"])
    else untagMessage entry rest message

def removeTags (entry : Json) : Outcome :=
  .ofExcept entry do
    let before ← entry.get "message" (.str "")
    match ← untagMessage entry tags before with
    | (some after, said) => storeMessage entry before after said
    | (none, said) => return { entry := entry, said := said, stop := some (.exit 1) }

def rareNames : List (String × String) :=
  [("𫚕鱼", "季鱼"), ("𬶮鱼", "宗鱼")]

def replaceRareIn (text : String) : String × List String :=
  rareNames.foldl (fun (text, said) (rare, plain) =>
      match Text.count rare.toList text.toList with
      | 0 => (text, said)
      | n => (Text.replace text rare plain, said ++ [s!"  处理生僻词替换: 将 {rare} 替换为 {plain}，共 {n} 处"]))
    (text, [])

def replaceRare (entry : Json) : Outcome :=
  (changeField replaceRareIn "message" entry).andThen (changeField replaceRareIn "name")

def replaceQuotesIn (text : String) : String × List String :=
  let fresh := Text.replace (Text.replace text "〝" "『") "〟" "』"
  if fresh = text then (text, [])
  else
    let left := Text.count ['〝'] text.toList
    let right := Text.count ['〟'] text.toList
    (fresh, [s!"  处理引号替换: 替换了 {left} 个〝和 {right} 个〟", s!"    原文本: {text}", s!"    新文本: {fresh}"])

def replaceQuotes (entry : Json) : Outcome :=
  changeField replaceQuotesIn "message" entry

def replaceNestedIn (text : String) : String × List String :=
  let changed := (innerPlaces 0 [] text.toList).length
  if changed = 0 then (text, [])
  else
    let fresh := String.ofList (whitenNested text.toList)
    (fresh, [s!"  处理嵌套括号: 替换了 {changed} 对括号", s!"    原文本: {text}", s!"    新文本: {fresh}"])

def replaceNestedValue (value : Json) : Except Fault (Json × List String) := do
  if !(← value.has "「") && !(← value.has "」") then return (value, [])
  else
    let units ← Json.joinable 0 (← value.elements)
    let chars := units.map fun unit => if unit.length = 1 then unit.toList.headD ' ' else ' '
    let changed := (innerPlaces 0 [] chars).length
    let whole := String.join <| (units.zip (whitenNested chars)).map fun (unit, c) =>
      if unit.length = 1 then String.singleton c else unit
    return (.str whole,
      if changed = 0 then []
      else [s!"  处理嵌套括号: 替换了 {changed} 对括号", s!"    原文本: {value.shown}", s!"    新文本: {whole}"])

def replaceNested (entry : Json) : Outcome :=
  (changeField replaceNestedIn "message" entry).andThen (changeField replaceNestedIn "name")

def gbkSigns : List (String × String) :=
  [("〜", "～"), ("・", "·"), ("♪", "～"), ("♥", "～"), ("♡", "～")]

def replaceSigns (text : String) : String :=
  gbkSigns.foldl (fun t (old, new) => Text.replace t old new) text

inductive Step
  | markBlank
  | restoreBlank
  | addTags
  | removeTags
  | replaceRare
  | replaceQuotes
  | replaceNested
  | replaceSigns
  | dropWideBlanks
  | escapeBackslashes
  | unescapeBackslashes
  deriving DecidableEq, Repr

namespace Step

def apply : Step → Json → Outcome
  | .markBlank => Entry.markBlank
  | .restoreBlank => Entry.restoreBlank
  | .addTags => Entry.addTags
  | .removeTags => Entry.removeTags
  | .replaceRare => Entry.replaceRare
  | .replaceQuotes => Entry.replaceQuotes
  | .replaceNested => Entry.replaceNested
  | .replaceSigns => changeQuietly Entry.replaceSigns
  | .dropWideBlanks => changeQuietly fun t => Text.replace t wideBlank ""
  | .escapeBackslashes => changeQuietly fun t => Text.replace t "\\" "@"
  | .unescapeBackslashes => changeQuietly fun t => Text.replace t "@" "\\"

end Step

/-- The steps before the texts go to translators and after they come back. -/
inductive Mode
  | extract
  | replace
  deriving DecidableEq, Repr

namespace Mode

def all : List Mode := [.extract, .replace]

def name : Mode → String
  | .extract => "e"
  | .replace => "r"

def ofName? (text : String) : Option Mode :=
  all.find? fun m => m.name = text

def steps : Mode → List Step
  | .extract => [.markBlank, .dropWideBlanks, .addTags]
  | .replace => [.removeTags, .replaceRare, .replaceNested, .replaceQuotes]

end Mode

def applyAll (steps : List Step) (entry : Json) : Outcome :=
  steps.foldl (fun o step => o.andThen step.apply) { entry := entry }

structure Prepared where
  entries : List Json := []
  said : List String := []
  stop : Option Stop := none

def prepareAll (steps : List Step) : List Json → Prepared
  | [] => {}
  | entry :: rest =>
    let o := applyAll steps entry
    match o.stop with
    | some stop => { entries := o.entry :: rest, said := o.said, stop := some stop }
    | none =>
      let more := prepareAll steps rest
      { more with entries := o.entry :: more.entries, said := o.said ++ more.said }

end SceneText.Entry
