/-!
# Hexadecimal text

A byte string is written as upper-case digit pairs divided by single blanks. It is read back from
pairs in either case, with ASCII blanks allowed between pairs and nowhere else; a refusal carries
the position of the character that does not fit. Only ASCII text is hexadecimal text.
-/

namespace SceneText.Hex

def lowerDigit (n : Nat) : Char :=
  Char.ofNat (if n < 10 then 48 + n else 87 + n)

def upperDigit (n : Nat) : Char :=
  Char.ofNat (if n < 10 then 48 + n else 55 + n)

def digit? (c : Char) : Option Nat :=
  let n := c.toNat
  if 48 ≤ n ∧ n ≤ 57 then some (n - 48)
  else if 97 ≤ n ∧ n ≤ 102 then some (n - 87)
  else if 65 ≤ n ∧ n ≤ 70 then some (n - 55)
  else none

def isBlank (c : Char) : Bool :=
  c.toNat = 32 || (9 ≤ c.toNat && c.toNat ≤ 13)

def pair (b : UInt8) : List Char :=
  [upperDigit (b.toNat / 16), upperDigit (b.toNat % 16)]

def spacedChars : List UInt8 → List Char
  | [] => []
  | [b] => pair b
  | b :: rest => pair b ++ ' ' :: spacedChars rest

def spaced (bytes : List UInt8) : String :=
  String.ofList (spacedChars bytes)

def compactChars (bytes : List UInt8) : List Char :=
  bytes.flatMap fun b => [lowerDigit (b.toNat / 16), lowerDigit (b.toNat % 16)]

def compact (bytes : List UInt8) : String :=
  String.ofList (compactChars bytes)

def solid (bytes : List UInt8) : String :=
  String.ofList (bytes.flatMap pair)

def readFrom (pos : Nat) : List Char → Except Nat (List UInt8)
  | [] => .ok []
  | c :: rest =>
    if isBlank c then readFrom (pos + 1) rest
    else match digit? c, rest with
      | none, _ => .error pos
      | some _, [] => .error (pos + 1)
      | some hi, d :: rest =>
        match digit? d with
        | none => .error (pos + 1)
        | some lo =>
          match readFrom (pos + 2) rest with
          | .error p => .error p
          | .ok bytes => .ok (UInt8.ofNat (hi * 16 + lo) :: bytes)

/-- Reads hexadecimal text. A character outside ASCII is refused before any pair is read. -/
def read (text : List Char) : Except Nat (List UInt8) :=
  match text.findIdx? (fun c => 128 ≤ c.toNat) with
  | some pos => .error pos
  | none => readFrom 0 text

def digitsOf (n : Nat) : List Char :=
  Nat.toDigits 16 n

def numeral : Int → String
  | .ofNat n => "0x" ++ String.ofList (digitsOf n)
  | .negSucc n => "-0x" ++ String.ofList (digitsOf (n + 1))

def padded (width n : Nat) : String :=
  let digits := (Nat.toDigits 16 n).map Char.toUpper
  String.ofList (List.replicate (width - digits.length) '0' ++ digits)

def paddedLower (width n : Nat) : String :=
  let digits := Nat.toDigits 16 n
  String.ofList (List.replicate (width - digits.length) '0' ++ digits)

end SceneText.Hex
