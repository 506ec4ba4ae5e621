import SceneText.Charset.Gbk
import SceneText.Charset.ShiftJis

/-!
# Character repertoires

For measuring text and for choosing stand-ins, all that counts of a charset is which characters it
has and how many bytes each takes.
-/

namespace SceneText

inductive Charset
  | cp932 | shiftJis | gbk
  deriving DecidableEq, Repr

namespace Charset

def all : List Charset := [.cp932, .shiftJis, .gbk]

def page : Charset → CodePage
  | .cp932 => CodePage.cp932
  | .shiftJis => CodePage.shiftJis
  | .gbk => CodePage.gbk

def name (cs : Charset) : String := cs.page.name

def ofName? (text : String) : Option Charset :=
  all.find? fun cs => cs.name = text

def bytesFor (cs : Charset) (c : Char) : Option Nat :=
  (cs.page.encodeChar c).map List.length

def has (cs : Charset) (c : Char) : Bool :=
  (cs.bytesFor c).isSome

def lossySize (cs : Charset) : List Char → Nat
  | [] => 0
  | c :: rest => (cs.bytesFor c).getD 1 + lossySize cs rest

end Charset
end SceneText
