/-!
# Line ends

Text read from a file has every line end turned into a line feed. Cutting a text into lines knows
more line ends than that: the vertical tab, the form feed, three information separators, the next
line control and the two Unicode separators.
-/

namespace SceneText.Text

/-- Turns carriage returns into line feeds after the text of `seen`, last character first. -/
def plainNewlinesFrom (seen : List Char) : List Char → List Char
  | [] => seen.reverse
  | '\r' :: '\n' :: rest => plainNewlinesFrom ('\n' :: seen) rest
  | '\r' :: rest => plainNewlinesFrom ('\n' :: seen) rest
  | c :: rest => plainNewlinesFrom (c :: seen) rest

def plainNewlines (text : List Char) : List Char :=
  plainNewlinesFrom [] text

def isLineEnd (c : Char) : Bool :=
  let n := c.toNat
  (0xa ≤ n && n ≤ 0xd) || (0x1c ≤ n && n ≤ 0x1e) || n = 0x85 || n = 0x2028 || n = 0x2029

/-- Cuts at every character of a class. A class member at the very end opens no further line. -/
def cutAt (isEnd : Char → Bool) : List Char → List (List Char)
  | [] => []
  | c :: rest =>
    if isEnd c then [] :: cutAt isEnd rest
    else match cutAt isEnd rest with
      | [] => [[c]]
      | line :: lines => (c :: line) :: lines

/-- The lines of a text in the wide sense; a carriage return and line feed end one line. -/
def wideLines (text : List Char) : List (List Char) :=
  cutAt isLineEnd (plainNewlines text)

def feedLines (text : List Char) : List (List Char) :=
  cutAt (· = '\n') text

end SceneText.Text
