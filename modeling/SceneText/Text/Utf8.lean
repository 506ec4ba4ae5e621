/-!
# UTF-8

Reading stops at the first byte sequence that is not UTF-8. A defect says where it begins, how many
bytes it covers and what is wrong: a byte that starts no character, a byte that does not continue
the character begun, or a text that ends inside a character.
-/

namespace SceneText.Utf8

inductive Reason
  | invalidStart
  | invalidContinuation
  | unexpectedEnd
  deriving DecidableEq, Repr

structure Defect where
  byte : UInt8
  position : Nat
  length : Nat
  reason : Reason
  deriving DecidableEq, Repr

def isTail (b : UInt8) : Bool :=
  0x80 ≤ b.toNat && b.toNat ≤ 0xbf

/-- Whether `b` may follow the lead byte `a` of a character of three or four bytes. -/
def isSecond (a b : UInt8) : Bool :=
  isTail b && (if a = 0xe0 then 0xa0 ≤ b.toNat
     else if a = 0xed then b.toNat < 0xa0
     else if a = 0xf0 then 0x90 ≤ b.toNat
     else if a = 0xf4 then b.toNat < 0x90
     else true)

def join2 (a b : UInt8) : Char :=
  Char.ofNat ((a.toNat - 0xc0) * 64 + (b.toNat - 0x80))

def join3 (a b c : UInt8) : Char :=
  Char.ofNat (((a.toNat - 0xe0) * 64 + (b.toNat - 0x80)) * 64 + (c.toNat - 0x80))

def join4 (a b c d : UInt8) : Char :=
  Char.ofNat ((((a.toNat - 0xf0) * 64 + (b.toNat - 0x80)) * 64 + (c.toNat - 0x80)) * 64
    + (d.toNat - 0x80))

/-- What the bytes from a lead byte of three or four bytes lack, when they make no character. -/
def tailDefect (pos : Nat) (a : UInt8) (rest : List UInt8) : Defect :=
  match rest with
  | [] => ⟨a, pos, 1, .unexpectedEnd⟩
  | [b] =>
    if isSecond a b then ⟨a, pos, 2, .unexpectedEnd⟩ else ⟨a, pos, 1, .invalidContinuation⟩
  | [b, c] =>
    if !isSecond a b then ⟨a, pos, 1, .invalidContinuation⟩
    else if !isTail c then ⟨a, pos, 2, .invalidContinuation⟩
    else ⟨a, pos, 3, .unexpectedEnd⟩
  | b :: c :: _ =>
    if !isSecond a b then ⟨a, pos, 1, .invalidContinuation⟩
    else if !isTail c then ⟨a, pos, 2, .invalidContinuation⟩
    else ⟨a, pos, 3, .invalidContinuation⟩

/-- Reads bytes whose first one stands at `pos`, after the characters of `seen`, last one first. -/
def decodeFrom (seen : List Char) (pos : Nat) : List UInt8 → Except Defect (List Char)
  | [] => .ok seen.reverse
  | a :: rest =>
    if a.toNat < 0x80 then decodeFrom (Char.ofNat a.toNat :: seen) (pos + 1) rest
    else if a.toNat < 0xc2 || 0xf4 < a.toNat then .error ⟨a, pos, 1, .invalidStart⟩
    else if a.toNat < 0xe0 then
      match rest with
      | [] => .error ⟨a, pos, 1, .unexpectedEnd⟩
      | b :: rest =>
        if isTail b then decodeFrom (join2 a b :: seen) (pos + 2) rest
        else .error ⟨a, pos, 1, .invalidContinuation⟩
    else if a.toNat < 0xf0 then
      match rest with
      | b :: c :: rest =>
        if isSecond a b && isTail c then decodeFrom (join3 a b c :: seen) (pos + 3) rest
        else .error (tailDefect pos a [b, c])
      | short => .error (tailDefect pos a short)
    else
      match rest with
      | b :: c :: d :: rest =>
        if isSecond a b && isTail c && isTail d then
          decodeFrom (join4 a b c d :: seen) (pos + 4) rest
        else .error (tailDefect pos a [b, c, d])
      | short => .error (tailDefect pos a short)

def decode (bytes : List UInt8) : Except Defect (List Char) :=
  decodeFrom [] 0 bytes

def encodeChar (c : Char) : List UInt8 :=
  let n := c.toNat
  if n < 0x80 then [UInt8.ofNat n]
  else if n < 0x800 then [UInt8.ofNat (0xc0 + n / 64), UInt8.ofNat (0x80 + n % 64)]
  else if n < 0x10000 then
    [UInt8.ofNat (0xe0 + n / 4096), UInt8.ofNat (0x80 + n / 64 % 64), UInt8.ofNat (0x80 + n % 64)]
  else
    [UInt8.ofNat (0xf0 + n / 262144), UInt8.ofNat (0x80 + n / 4096 % 64),
     UInt8.ofNat (0x80 + n / 64 % 64), UInt8.ofNat (0x80 + n % 64)]

def encode (text : List Char) : List UInt8 :=
  text.flatMap encodeChar

end SceneText.Utf8
