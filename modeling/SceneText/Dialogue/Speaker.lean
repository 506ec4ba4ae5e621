import SceneText.Json.Datum

/-!
# The cast

Scripts name the speaker of a sentence by number. Number zero is the narrator, who has no name.
-/

namespace SceneText.Speaker

def cast : List (Int × String) :=
  [(1, "真一"), (2, "瑞穂"), (3, "ユカリ"), (4, "希"), (5, "安芸"), (6, "トキ子"), (7, "朝霧"),
   (8, "水鳥"), (9, "櫻"), (10, "嘉悦"), (11, "日向"), (12, "女将"), (13, "仲居さんA"),
   (14, "仲居さんB"), (15, "警官"), (16, "黒服の男"), (17, "担当車掌"), (18, "アナウンス"),
   (19, "司会者"), (20, "希の友達"), (21, "乗客"), (24, "ナレーション")]

def unknown (shown : String) : String :=
  "未知角色" ++ shown

/-- The name for a speaker given by any value; a value that equals a number counts as it. -/
def name? (d : Datum) : Option String :=
  let isNumber (n : Int) : Bool := match d with
    | .plain v => v.sameNumber (.int n)
    | .bytes _ => false
  if isNumber 0 then none
  else match cast.find? fun member => isNumber member.1 with
    | some member => some member.2
    | none => some (unknown d.shown)

end SceneText.Speaker
