import SceneText.Layout.Limit
import SceneText.Layout.Measure
import SceneText.Text.Classes

/-!
# Shortening

A message that is too long is shortened in steps, from harmless ones to drastic ones, and the first
step after which it fits is the last. The verdict says whether it fits in the end.
-/

namespace SceneText.Layout

def doubledSigns : List (String × String) :=
  [("……", "…"), ("――", "―"), ("——", "—"), ("‥‥", "‥"), ("──", "─")]

def synonyms : List (String × String) :=
  [("真是", "真"), ("什么", "啥"), ("那一个", "那个"), ("哪一个", "哪个"), ("某一个", "某个"),
   ("每一个", "每个"), ("是一种", "是种"), ("这一部分", "这部分"), ("是一个", "是个"),
   ("有一个", "有个"), ("是一名", "是名"), ("是一位", "是位"), ("是一件", "是件"),
   ("一个人", "一人"), ("两个人", "两人"), ("三个人", "三人"), ("的时候", "时"), ("之前", "前"),
   ("之后", "后"), ("之时", "时"), ("如果", "若")]

def closingSigns : List Char := ['」', '。', '！', '？', '!', '?']

def bluntSynonyms : List (String × String) :=
  [("但是", "但"), ("可是", "可"), ("因为", "因"), ("已经", "已"), ("知道", "知"), ("不要", "别"), ("非常", "很")]

def possessives : List (String × String) :=
  [("我的", "我"), ("你的", "你"), ("他的", "他"), ("她的", "她"), ("它的", "它"),
   ("我们的", "我们"), ("你们的", "你们"), ("他们的", "他们")]

def endingParticles : List Char := ['呢', '吗', '吧', '啊', '呀', '啦', '哦', '哟', '呦']

def droppableSigns : List Char := ['…', '―', '—', '‥', '~', '～', '·', '・', '，', ',', '、', ' ']

def narrowTable : List (Nat × Nat) :=
  (List.range 10).map (fun i => (0xff10 + i, 0x30 + i)) ++
    (List.range 26).map (fun i => (0xff21 + i, 0x41 + i)) ++
    (List.range 26).map (fun i => (0xff41 + i, 0x61 + i))

def narrowChar (c : Char) : Char :=
  match narrowTable.lookup c.toNat with
  | some n => Char.ofNat n
  | none => c

def narrow (text : List Char) : List Char :=
  text.map narrowChar

def collapseWith (double single : List Char) : Nat → List Char → List Char
  | 0, text => text
  | fuel + 1, text =>
    if Text.occurs double text then
      collapseWith double single fuel (Text.replaceAll double single text)
    else text

def collapse (double single text : List Char) : List Char :=
  collapseWith double single text.length text

/-- A message on its way: whether it fits already, after which no step changes it. -/
structure Attempt where
  text : List Char
  done : Bool
  deriving DecidableEq, Repr

namespace Attempt

def verdict (a : Attempt) : List Char × Bool := (a.text, a.done)

def apply (fits : List Char → Bool) (step : List Char → List Char) (a : Attempt) : Attempt :=
  if a.done then a else ⟨step a.text, fits (step a.text)⟩

def applyEach (fits : List Char → Bool) (step : String × String → List Char → List Char)
    (pairs : List (String × String)) (a : Attempt) : Attempt :=
  pairs.foldl (fun a pair =>
      if Text.occurs pair.1.toList a.text then a.apply fits (step pair) else a) a

def dropClosing (fits : List Char → Bool) : Nat → Attempt → Attempt
  | 0, a => a
  | fuel + 1, a =>
    if a.done then a
    else match a.text.getLast? with
      | some c =>
        if closingSigns.contains c then dropClosing fits fuel (a.apply fits List.dropLast) else a
      | none => a

def dropParticleRound (text : List Char) : List Char :=
  endingParticles.foldl (fun text p => if text.getLast? = some p then text.dropLast else text) text

def dropParticles (fits : List Char → Bool) : Nat → Attempt → Attempt
  | 0, a => a
  | fuel + 1, a =>
    if a.done then a
    else match a.text.getLast? with
      | some c =>
        if endingParticles.contains c then dropParticles fits fuel (a.apply fits dropParticleRound)
        else a
      | none => a

end Attempt

def replacePair (pair : String × String) (text : List Char) : List Char :=
  Text.replaceAll pair.1.toList pair.2.toList text

def replacePairs (pairs : List (String × String)) (text : List Char) : List Char :=
  pairs.foldl (fun text pair => replacePair pair text) text

def shortenDrastically (measure : Measure) (limit : Limit) (text : List Char) : List Char × Bool :=
  let fits (t : List Char) : Bool := limit.admits (measure.length t)
  let start : Attempt := ⟨text, fits text⟩
  let plain := start.apply fits (replacePairs bluntSynonyms)
    |>.apply fits (replacePairs possessives)
    |>.apply fits (Text.replaceAll ['的'] [])
    |>.apply fits (List.filter fun c => !Text.isBlank c)
  let bare := plain.dropParticles fits text.length
  (bare.apply fits (List.filter fun c => !droppableSigns.contains c)).verdict

def shortenGently (measure : Measure) (limit : Limit) (text : List Char) : List Char × Bool :=
  let fits (t : List Char) : Bool := limit.admits (measure.length t)
  let start : Attempt := ⟨text, fits text⟩
  let narrowed := match measure with
    | .cells => start.apply fits narrow
    | .chars => start
  let dense := narrowed.apply fits (Text.replaceAll ['　'] [])
  let single := dense.applyEach fits (fun pair => collapse pair.1.toList pair.2.toList) doubledSigns
  let brief := single.applyEach fits replacePair synonyms
  (brief.dropClosing fits text.length).verdict

def shorten (measure : Measure) (limit : Limit) (drastic : Bool) (text : List Char) :
    List Char × Bool :=
  match shortenGently measure limit text with
  | (short, true) => (short, true)
  | (short, false) =>
    if drastic then shortenDrastically measure limit short else (short, false)

/-- Shortens a value by a method for texts. A value that fits is left as it is, and another one has
to be a text, of which `operation` is the first thing asked. -/
def shortenBy (method : Limit → List Char → List Char × Bool) (operation : String)
    (measure : Measure) (limit value : Json) : Except Fault (Json × Bool) := do
  let length ← measure.lengthOf value
  let limit ← Limit.ofJson "<=" limit
  if limit.admits length then return (value, true)
  else
    let (short, fits) := method limit (← value.asText operation).toList
    return (.str (String.ofList short), fits)

def shortenValue (measure : Measure) (limit : Json) (drastic : Bool) (value : Json) :
    Except Fault (Json × Bool) :=
  let operation := match measure with
    | .cells => "translate"
    | .chars => "replace"
  shortenBy (fun limit => shorten measure limit drastic) operation measure limit value

def shortenValueDrastically (measure : Measure) (limit value : Json) : Except Fault (Json × Bool) :=
  shortenBy (shortenDrastically measure) "replace" measure limit value

/-- Shortens what is handed over by a method for values. A byte string that does not fit cannot be
asked for texts inside. -/
def shortenDatum (method : Json → Except Fault (Json × Bool)) (measure : Measure) (limit : Json)
    (d : Datum) : Except Fault (Datum × Bool) := do
  match d with
  | .plain v =>
    let (short, fits) ← method v
    return (.plain short, fits)
  | .bytes _ =>
    let length ← measure.lengthOf d.sequence
    if (← Limit.ofJson "<=" limit).admits length then return (d, true)
    else .error (.misuse (.notByteString "str"))

end SceneText.Layout
