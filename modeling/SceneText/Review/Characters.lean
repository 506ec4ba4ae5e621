import SceneText.Bytes.Hex
import SceneText.Text.Ranges
import SceneText.Text.Search

/-!
# Characters that a translated text must not have

Korean letters, kana, and characters that take no room or only steer the layout.
-/

namespace SceneText.Review

def koreanRanges : List (Nat × Nat) :=
  [(0x3131, 0x314e), (0x314f, 0x3163), (0xac00, 0xd7a3)]

def invisibleRanges : List (Nat × Nat) :=
  [(0x200b, 0x200f), (0x2060, 0x2064), (0x206a, 0x206f), (0xfeff, 0xfeff), (0x202a, 0x202e),
   (0x180e, 0x180e), (0x2063, 0x2063)]

def isKorean (c : Char) : Bool := Text.inRanges koreanRanges c.toNat

def isHiragana (c : Char) : Bool := Text.inRanges [(0x3040, 0x309f)] c.toNat

def isKatakana (c : Char) : Bool := Text.inRanges [(0x30a0, 0x30ff)] c.toNat

def isInvisible (c : Char) : Bool := Text.inRanges invisibleRanges c.toNat

def invisibleNames : List (Nat × String) :=
  [(0x200b, "零宽度空格"), (0x200c, "零宽度非连接符"), (0x200d, "零宽度连接符"),
   (0x200e, "左至右标记"), (0x200f, "右至左标记"), (0x2060, "单词连接符"), (0x2061, "函数应用"),
   (0x2062, "不可见乘号"), (0x2063, "不可见分隔符"), (0x2064, "不可见加号"),
   (0x206a, "不可见乘号变体"), (0x206b, "不可见乘号变体"),
   (0xfeff, "零宽度不换行空格/字节顺序标记"), (0x202a, "左至右嵌入"), (0x202b, "右至左嵌入"),
   (0x202c, "弹出方向格式化"), (0x202d, "左至右覆盖"), (0x202e, "右至左覆盖"),
   (0x180e, "蒙古文元音分隔符")]

def codeName (c : Char) : String :=
  "U+" ++ Hex.padded 4 c.toNat

def fullName (c : Char) : String :=
  codeName c ++ "(" ++ (invisibleNames.lookup c.toNat).getD "未知不可见字符" ++ ")"

def distinct (inClass : Char → Bool) (text : List Char) : List Char :=
  (text.filter inClass).eraseDups

def distinctSorted (inClass : Char → Bool) (text : List Char) : List Char :=
  (distinct inClass text).mergeSort fun a b => a.toNat ≤ b.toNat

def markEach (mark : Char → String) (chars text : List Char) : List Char :=
  chars.foldl (fun text c => Text.replaceAll [c] (mark c).toList text) text

def occurrences (c : Char) (text : List Char) : Nat :=
  text.count c

end SceneText.Review
