import SceneText.Bytes.Width

/-!
# Wide units

Two forms of text spend units of a fixed size on a character: one unit of four bytes, or one or two
units of two bytes. A character beyond the first 65536 takes two of the small units, a high and a
low surrogate, and no other use of surrogates is text.
-/

namespace SceneText.Units

def isHigh (unit : Nat) : Bool := 0xd800 ≤ unit && unit < 0xdc00

def isLow (unit : Nat) : Bool := 0xdc00 ≤ unit && unit < 0xe000

def ofChar (c : Char) : List Nat :=
  let n := c.toNat
  if n < 0x10000 then [n] else [0xd800 + (n - 0x10000) / 1024, 0xdc00 + (n - 0x10000) % 1024]

def ofText (text : List Char) : List Nat :=
  text.flatMap ofChar

def toText? : List Nat → Option (List Char)
  | [] => some []
  | [u] => if isHigh u || isLow u then none else some [Char.ofNat u]
  | u :: v :: rest =>
    if isHigh u then
      if isLow v then
        (toText? rest).map (Char.ofNat (0x10000 + (u - 0xd800) * 1024 + (v - 0xdc00)) :: ·)
      else none
    else if isLow u then none
    else (toText? (v :: rest)).map (Char.ofNat u :: ·)

def charOf? (unit : Nat) : Option Char :=
  if isHigh unit || isLow unit || 0x110000 ≤ unit then none else some (Char.ofNat unit)

def value (order : ByteOrder) (bytes : List UInt8) : Nat :=
  match order with
  | .little => ofLowBytes bytes
  | .big => ofLowBytes bytes.reverse

def pairs? (order : ByteOrder) : List UInt8 → Option (List Nat)
  | [] => some []
  | [_] => none
  | a :: b :: rest => (pairs? order rest).map (value order [a, b] :: ·)

def quads? (order : ByteOrder) : List UInt8 → Option (List Nat)
  | [] => some []
  | a :: b :: c :: d :: rest => (quads? order rest).map (value order [a, b, c, d] :: ·)
  | _ => none

def decode16? (order : ByteOrder) (bytes : List UInt8) : Option (List Char) :=
  (pairs? order bytes).bind toText?

def decode32? (order : ByteOrder) (bytes : List UInt8) : Option (List Char) :=
  (quads? order bytes).bind fun units => units.mapM charOf?

end SceneText.Units
