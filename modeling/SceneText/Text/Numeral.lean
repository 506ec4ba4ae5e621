import SceneText.Text.Classes

/-!
# Decimal numerals

A whole number may be written with blanks around it, one sign, decimal digits of any script and
single underscores between digits. The four information separators do not count as blanks here.
A numeral of more than 4300 digits is refused as too long.
-/

namespace SceneText.Numeral

inductive Defect
  | malformed
  | tooLong (digits : Nat)
  deriving DecidableEq, Repr

def isBlank (c : Char) : Bool :=
  Text.isBlank c && !(0x1c ≤ c.toNat && c.toNat ≤ 0x1f)

/-- Splits the run of digits off the head of a text. It starts and ends with a digit, and an
underscore must have a digit on both sides; `between` says whether one may come next. -/
def scanDigits : Bool → List Char → Option (List Nat × List Char)
  | between, [] => if between then some ([], []) else none
  | between, c :: rest =>
    if c = '_' then
      if between then scanDigits false rest else none
    else match Text.decimalDigit? c with
      | some d => (scanDigits true rest).map fun (ds, rest) => (d :: ds, rest)
      | none => if between then some ([], c :: rest) else none

def ofDigits (ds : List Nat) : Nat :=
  ds.foldl (fun n d => 10 * n + d) 0

def maxDigits : Nat := 4300

/-- Reads digits with nothing but blanks behind them. That there are too many is noticed before what
stands behind them. -/
def readUnsigned (text : List Char) : Except Defect Nat :=
  match scanDigits false text with
  | none => .error .malformed
  | some (ds, rest) =>
    if maxDigits < ds.length then .error (.tooLong ds.length)
    else if rest.all isBlank then .ok (ofDigits ds)
    else .error .malformed

def read (text : List Char) : Except Defect Int :=
  match text.dropWhile isBlank with
  | '-' :: rest => (readUnsigned rest).map fun n => -(n : Int)
  | '+' :: rest => (readUnsigned rest).map fun n => (n : Int)
  | rest => (readUnsigned rest).map fun n => (n : Int)

def padded (width n : Nat) : String :=
  let digits := Nat.toDigits 10 n
  String.ofList (List.replicate (width - digits.length) '0' ++ digits)

end SceneText.Numeral
