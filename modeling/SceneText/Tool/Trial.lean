import SceneText.Tool.CommandLine

/-!
# Trial documents

Makes documents that stand in for translated ones while the rest of the chain is tried out. Each
trial changes messages in a way of its own: kana are replaced by ideographs, all letters by one
ideograph, a tag is added at one end, or a character is taken away there.
-/

namespace SceneText.TrialTool

open Run

inductive Trial
  | kana
  | uniform
  | tagged
  | clipped
  deriving DecidableEq, Repr

def ideographs : List (String × String) :=
  [("あ", "你"), ("い", "一"), ("う", "宇"), ("え", "衣"), ("お", "於"), ("か", "加"), ("き", "木"),
   ("く", "久"), ("け", "計"), ("こ", "古"), ("さ", "左"), ("し", "志"), ("す", "寿"), ("せ", "世"),
   ("そ", "曽"), ("な", "奈"), ("に", "仁"), ("ぬ", "奴"), ("ね", "祢"), ("の", "乃"), ("ま", "麻"),
   ("み", "美"), ("む", "啊"), ("め", "女"), ("も", "毛"), ("や", "也"), ("ゆ", "由"), ("よ", "与"),
   ("ら", "良"), ("り", "利"), ("る", "流"), ("れ", "礼"), ("ろ", "呂"), ("わ", "和"), ("を", "乎"),
   ("ん", "ン"), ("ア", "亜"), ("イ", "伊"), ("ウ", "宇"), ("エ", "江"), ("オ", "央"), ("カ", "加"),
   ("キ", "機"), ("ク", "久"), ("ケ", "計"), ("コ", "古"), ("サ", "佐"), ("シ", "司"), ("ス", "須"),
   ("セ", "世"), ("ソ", "曽"), ("ン", "心")]

def smallKana : List String := ["ゃ", "ゅ", "ょ", "っ", "ァ", "ィ", "ゥ", "ェ", "ォ"]

def kanaUnit (unit : Json) : Except Fault (List Json) := do
  match ← unit.asKey with
  | .str s =>
    if smallKana.contains s then return []
    else return [.str ((ideographs.lookup s).getD s)]
  | v => return [v]

def isBetween (low high text : String) : Bool :=
  !(text < low) && !(high < text)

def letterRanges : List (String × String) :=
  [("\u3040", "\u309f"), ("\u30a0", "\u30ff"), ("\u4e00", "\u9fff")]

def uniformUnit (unit : Json) : Except Fault (List Json) :=
  match unit with
  | .str s =>
    if isBetween "\u3041" "\u3042" s then .ok []
    else if letterRanges.any fun (low, high) => isBetween low high s then .ok [.str "中"]
    else .ok [unit]
  | v => .error (.misuse (.notOrdered "<=" "str" v.kind))

def replaceUnits (replace : Json → Except Fault (List Json)) (key : String) (entry : Json) :
    Except Fault Json := do
  if ← entry.has key then
    let units ← (← (← entry.field key).elements).mapM replace
    entry.put key (.str (String.join (← Json.joinable 0 units.flatten)))
  else return entry

def replaceMessage (bracketed plain : String → String) (entry : Json) : Except Fault Json := do
  match ← entry.field "message" with
  | .str s =>
    entry.put "message" (.str (if Text.hasPrefix s "[" then bracketed s else plain s))
  | v => .error (.misuse (.noOperation v.kind "startswith"))

namespace Trial

def apply : Trial → Json → Except Fault Json
  | .kana, entry => replaceUnits kanaUnit "message" entry
  | .uniform, entry => do
    replaceUnits uniformUnit "name" (← replaceUnits uniformUnit "message" entry)
  | .tagged, entry => replaceMessage (· ++ "中文") ("中文" ++ ·) entry
  | .clipped, entry =>
    replaceMessage (fun s => String.ofList s.toList.dropLast) (fun s => String.ofList s.toList.tail)
      entry

end Trial

def create (trial : Trial) (input : String) (output : Arguments.Value) : Run Unit := do
  let entries ← lift (← readJson input).elements
  let changed ← lift (entries.mapM fun entry => do trial.apply (← entry.copy))
  writeJson (← pathOf output) (.arr changed)
  say s!"成功创建测试翻译文件: {output.shown}"
  say s!"共转换 {changed.length} 条文本项"

def grammar : Arguments.Grammar where
  flags := [{ spellings := ["-o", "--output"], name := "output", required := true }]
  places := [{ name := "input" }]

def main (trial : Trial) (words : List String) : Run Unit := do
  let values ← arguments (grammar.read words)
  let done ← attempt do
    let input ← pathOf (values.one "input" "")
    if !(← present input) then refuse (.inputMissing input)
    create trial input (values.one "output" "")
  match done with
  | .ok _ => pure ()
  | .error fault => exitWith s!"错误: {fault.message}"

end SceneText.TrialTool
