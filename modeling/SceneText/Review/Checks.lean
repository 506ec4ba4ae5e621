import SceneText.Review.Characters
import SceneText.Review.Quotes
import SceneText.Review.Report
import SceneText.Text.Classes

/-!
# Checks of translated texts

Each check looks at the translated entries, some also at the source entries beside them. Findings
are written as lines with the index of the entry; most show the text with the offending parts in
brackets.
-/

namespace SceneText.Review

inductive Check
  | specialCharacters
  | koreanCharacters
  | japaneseCharacters
  | duplicateQuotes
  | lengthDiscrepancy
  | quoteConsistency
  | invisibleCharacters
  | forbiddenWords
  | unpairedQuotes
  | maxTextLength
  deriving DecidableEq, Repr

namespace Check

def name : Check → String
  | .specialCharacters => "check_special_characters"
  | .koreanCharacters => "check_korean_characters"
  | .japaneseCharacters => "check_japanese_characters"
  | .duplicateQuotes => "check_duplicate_quotes"
  | .lengthDiscrepancy => "check_length_discrepancy"
  | .quoteConsistency => "check_quote_consistency"
  | .invisibleCharacters => "check_invisible_characters"
  | .forbiddenWords => "check_forbidden_words"
  | .unpairedQuotes => "check_unpaired_quotes"
  | .maxTextLength => "check_max_text_len"

def all : List Check :=
  [.specialCharacters, .koreanCharacters, .japaneseCharacters, .duplicateQuotes,
   .lengthDiscrepancy, .quoteConsistency, .invisibleCharacters, .forbiddenWords, .unpairedQuotes,
   .maxTextLength]

def ofName? (text : String) : Option Check :=
  all.find? fun c => c.name = text

def required : List Check :=
  [.koreanCharacters, .japaneseCharacters, .duplicateQuotes, .invisibleCharacters, .unpairedQuotes,
   .maxTextLength]

end Check

def ifField (entry : Json) (key : String) (check : Json → Report) : Report :=
  .given (entry.has key) fun there =>
    if there then .given (entry.field key) check else .clean

def ifBothFields (source translated : Json) (key : String)
    (check : Except Fault Json → Except Fault Json → Report) : Report :=
  .given (source.has key) fun inSource =>
    if !inSource then .clean
    else .given (translated.has key) fun inTranslated =>
      if inTranslated then check (source.field key) (translated.field key) else .clean

def searchable (v : Json) : Except Fault (List Char) :=
  match v with
  | .str s => .ok s.toList
  | v => .error (.misuse (.notSearchable v.kind))

def replaceable (v : Json) : Except Fault (List Char) :=
  match v with
  | .str s => .ok s.toList
  | v => .error (.misuse (.noOperation v.kind "replace"))

def bracketedChar (c : Char) : String :=
  bracketed (String.singleton c)

def charList (chars : List Char) : String :=
  (Json.arr (chars.map fun c => .str (String.singleton c))).literal

def maxLength : Nat := 90

def checkLength (i : Nat) (entry : Json) : Report :=
  .given (entry.field "message") fun message =>
    .given message.size fun n =>
      if n > maxLength then
        .ofLines [s!"索引 {i} message字段超长 {message.shown} ({n} > {maxLength})"]
      else .clean

inductive Proportion
  | long
  | short
  | fair
  deriving DecidableEq, Repr

def quotient (num den : Nat) : Nat × Nat :=
  match Binary64.ofRatio false num den with
  | .finite _ m e => Binary64.ratio m e
  | _ => (0, 1)

/-- Classifies the rounded quotient of two lengths: above two is long, below three tenths short. -/
def proportion (translated source : Nat) : Proportion :=
  let (num, den) := quotient translated source
  let (low, unit) := quotient 3 10
  if num > 2 * den then .long
  else if num * unit < low * den then .short
  else .fair

def checkProportion (i : Nat) (source translated : Json) : Report :=
  ifBothFields source translated "message" fun first second =>
    .given first fun message =>
      .given second fun target =>
        .given message.size fun n =>
          .given target.size fun m =>
            if n = 0 then .clean
            else
              let (num, den) := quotient m n
              let shown := Binary64.twoPlaces num den
              let lines (word threshold : String) : List String :=
                [s!"索引 {i} 译文长度过{word}: 原文长度 {n}，译文长度 {m}，比例 {shown} ({threshold})",
                 s!"  原文: {message.shown}", s!"  译文: {target.shown}", ""]
              match proportion m n with
              | .long => .ofLines (lines "长" "超过阈值 2.0")
              | .short => .ofLines (lines "短" "低于阈值 0.3")
              | .fair => .clean

/-- The units of a message: its characters, or the items of a list, which have to be keys. -/
def quoteUnits (message : Json) : Except Fault (List Json) := do
  (← message.elements).mapM Json.asKey

def unitChar : Json → Char
  | .str s =>
    match s.toList with
    | [c] => c
    | _ => ' '
  | _ => ' '

def leftoverLines (left : Leftover) : List String :=
  left.surplus.map (fun p => s!"  位置 {p.place}: 多余的 '{p.quote}'") ++
    left.unclosed.map (fun p => s!"  位置 {p.place}: 未关闭的 '{p.quote}'")

/-- The text with unpaired quotes in brackets: unclosed ones by the pairing, surplus ones by a scan
of their own. -/
def highlightUnpaired (chars : List Char) (left : Leftover) (units : List String) : String :=
  String.join (markPlaces (left.unclosed.map Placed.place ++ surplusFrom 0 [] chars) units)

def sourceField (sources : Json) (i : Nat) (key : String) : Except Fault String := do
  return (← (← sources.item i).get key (.str "无")).shown

def checkPairs (sources : Json) (i : Nat) (entry : Json) : Report :=
  ifField entry "message" fun message =>
    .given (quoteUnits message) fun units =>
      let chars := units.map unitChar
      let left := pairQuotes chars
      if left.surplus.isEmpty && left.unclosed.isEmpty then .clean
      else
        Report.ofLines (s!"索引 {i} 译文中存在未配对的引号:" :: leftoverLines left) |>.andThen <|
          .given (Json.joinable 0 units) fun texts =>
            .given (sourceField sources i "message") fun source =>
              .ofLines [s!"  原文message: {source}", s!"  译文message: {message.shown}",
                 s!"  高亮显示: {highlightUnpaired chars left texts}", ""]

def doubledQuotes : List String := ["「「", "」」", "『『", "』』"]

def checkDoubled (i : Nat) (message : Json) (quotes : String) : Report :=
  .given (message.has quotes) fun found =>
    if !found then .clean
    else
      Report.ofLines [s!"索引 {i} 译文中包含重复的{quotes}", s!"  译文: {message.shown}"] |>.andThen <|
        .given (replaceable message) fun text =>
          let marked := String.ofList
            (Text.replaceAll quotes.toList (bracketed quotes).toList text)
          .ofLines [s!"  高亮显示: {marked}", ""]

def checkDuplicates (i : Nat) (entry : Json) : Report :=
  ifField entry "message" fun message =>
    doubledQuotes.foldl (fun r quotes => r.andThen (checkDoubled i message quotes)) .clean

def stripped (v : Json) : Except Fault (List Char) :=
  match v with
  | .str s => .ok (Text.trim s.toList)
  | v => .error (.misuse (.noOperation v.kind "strip"))

def checkEnds (i : Nat) (source translated : Json) : Report :=
  ifBothFields source translated "message" fun first second =>
    .given (do stripped (← first)) fun s =>
      .given (do stripped (← second)) fun t =>
        let lines (place : String) : List String :=
          [s!"索引 {i} {place}引号不一致:\n 原文'{String.ofList s}'\n 译文'{String.ofList t}'\n"]
        let differs (quotes : List Char) (a b : Option Char) : Bool :=
          match a, b with
          | some x, some y => quotes.contains x && x ≠ y
          | _, _ => false
        .ofLines ((if differs ['「', '『'] s.head? t.head? then lines "开头" else []) ++
            if differs ['」', '』'] s.getLast? t.getLast? then lines "结尾" else [])

def checkKorean (i : Nat) (entry : Json) : Report :=
  ifField entry "message" fun message =>
    .given (searchable message) fun text =>
      let found := distinctSorted isKorean text
      if found.isEmpty then .clean
      else
        let marked := String.ofList (markEach bracketedChar found text)
        .ofLines [s!"索引 {i} 译文中包含韩文字符: {charList found}", s!"  译文: {message.shown}",
           s!"  高亮显示: {marked}", ""]

def checkJapanese (i : Nat) (entry : Json) : Report :=
  ifField entry "message" fun message =>
    .given (searchable message) fun text =>
      let hiragana := distinctSorted isHiragana text
      let katakana := distinctSorted isKatakana text
      if hiragana.isEmpty && katakana.isEmpty then .clean
      else
        let part (word : String) (found : List Char) : String :=
          if found.isEmpty then "" else word ++ charList found
        let marked := String.ofList (markEach bracketedChar (hiragana ++ katakana) text)
        .ofLines [s!"索引 {i} 译文中包含日语假名字符:" ++ part " 平假名" hiragana ++ part " 片假名" katakana,
           s!"  译文: {message.shown}", s!"  高亮显示: {marked}", ""]

def invisibleDetails (found text : List Char) : String :=
  String.join (found.map fun c => s!"\n  {fullName c}: {occurrences c text}次")

def checkInvisible (i : Nat) (entry : Json) : Report :=
  let message := ifField entry "message" fun message =>
    .given (searchable message) fun text =>
      let found := distinct isInvisible text
      if found.isEmpty then .clean
      else
        let marked := String.ofList (markEach (fun c => bracketed (codeName c)) found text)
        .ofLines [s!"索引 {i} 译文中包含不可见字符:" ++ invisibleDetails found text,
           s!"  译文: {message.literal}", s!"  高亮显示: {marked}", ""]
  message.andThen <| ifField entry "name" fun name =>
    .given (searchable name) fun text =>
      let found := distinct isInvisible text
      if found.isEmpty then .clean
      else
        .ofLines [s!"索引 {i} name字段中包含不可见字符:" ++ invisibleDetails found text,
           s!"  name: {name.literal}", ""]

def forbiddenWords : List String :=
  ["学长", "学姐", "学弟", "学妹", "酱", "肉刃", "桑", "甬道", "妳", "name", "dst", "message", ":", "甫"]

def forbiddenIn (v : Json) : List String → Except Fault (List String)
  | [] => .ok []
  | word :: rest => do
    let found ← v.has word
    let more ← forbiddenIn v rest
    return if found then word :: more else more

def checkForbiddenField (sources : Json) (i : Nat) (entry : Json) (key : String) : Report :=
  ifField entry key fun v =>
    .given (forbiddenIn v forbiddenWords) fun words =>
      if words.isEmpty then .clean
      else
        let listed := ", ".intercalate words
        Report.ofLines [s!"索引 {i} {key}字段中包含禁用词: {listed}"] |>.andThen <|
          .given (sourceField sources i key) fun source =>
            Report.ofLines [s!"  原文{key}: {source}", s!"  译文{key}: {v.shown}"] |>.andThen <|
              .given (replaceable v) fun text =>
                let marked := String.ofList <| words.foldl
                  (fun t w => Text.replaceAll w.toList (bracketed w).toList t) text
                .ofLines [s!"  高亮显示: {marked}", ""]

def checkForbidden (sources : Json) (i : Nat) (entry : Json) : Report :=
  (checkForbiddenField sources i entry "message").andThen
    (checkForbiddenField sources i entry "name")

def engineMarks : List Char := ['p', 'k', 'r', 'P', 'K', 'R']

def marksIn : List Char → List String
  | '@' :: c :: rest =>
    if engineMarks.contains c then String.ofList ['@', c] :: marksIn rest else marksIn (c :: rest)
  | _ :: rest => marksIn rest
  | [] => []

/-- The engine marks of a value; a list has none, and a record with fields cannot be asked. -/
def marksOf (v : Json) : Except Fault (List String) :=
  match v with
  | .str s => .ok (marksIn s.toList)
  | .obj (_ :: _) => .error (.missingKey (.int 0))
  | .obj [] | .arr _ => .ok []
  | v => .error (.misuse (.noLength v.kind))

def entryLines (source translated : Json) : List String :=
  [s!"  原文: {source.shown}", s!"  译文: {translated.shown}", ""]

def checkMarksField (i : Nat) (source translated : Json) (key : String) : Report :=
  ifBothFields source translated key fun first second =>
    .given (do marksOf (← first)) fun wanted =>
      .given (do marksOf (← second)) fun found =>
        if wanted = found then .clean
        else
          let listed (marks : List String) : String := ", ".intercalate marks
          .ofLines ((s!"索引 {i} {key}字段特殊字符不匹配: 原文有 {wanted.length} 个 [{listed wanted}]，" ++
              s!"译文有 {found.length} 个 [{listed found}]") :: entryLines source translated)

def checkMarks (i : Nat) (source translated : Json) : Report :=
  ((checkMarksField i source translated "message").andThen
    (checkMarksField i source translated "name")).andThen <|
    .given (source.has "name") fun a =>
      .given (translated.has "name") fun b =>
        if a = b then .clean
        else
          let word (there : Bool) : String := if there then "有" else "无"
          .ofLines (s!"索引 {i} name字段存在性不匹配: 原文{word a}name字段，译文{word b}name字段" ::
              entryLines source translated)

def sideBySide (sources targets : Json) (check : Nat → Json → Json → Report) : Report :=
  .given sources.elements fun s =>
    .given targets.elements fun t =>
      .each (fun i (a, b) => check i a b) 0 (s.zip t)

def eachEntry (targets : Json) (check : Nat → Json → Report) : Report :=
  .given targets.elements fun t => .each check 0 t

def Check.run (sources targets : Json) : Check → Report
  | .specialCharacters => sideBySide sources targets checkMarks
  | .koreanCharacters => eachEntry targets checkKorean
  | .japaneseCharacters => eachEntry targets checkJapanese
  | .duplicateQuotes => eachEntry targets checkDuplicates
  | .lengthDiscrepancy => sideBySide sources targets checkProportion
  | .quoteConsistency => sideBySide sources targets checkEnds
  | .invisibleCharacters => eachEntry targets checkInvisible
  | .forbiddenWords => eachEntry targets (checkForbidden sources)
  | .unpairedQuotes => eachEntry targets (checkPairs sources)
  | .maxTextLength => eachEntry targets checkLength

def Check.summary (sources targets : Json) (check : Check) : List String :=
  let report := check.run sources targets
  match report.fault with
  | none => report.lines
  | some fault => report.lines ++ [s!"检查 {check.name} 执行时出错: {fault.message}"]

def review (sources targets : Json) : Bool × List String :=
  (Check.required.all fun c => (c.run sources targets).passed,
    Check.required.flatMap fun c => c.summary sources targets)

end SceneText.Review
