import Std.Data.HashMap
import SceneText.Charset.Chart

/-!
# Code pages

A code page spends one or two bytes on a character. Encoding and decoding go character by
character and stop at the first one that does not fit: encoding reports its position, decoding the
position of the lead byte and whether the trail byte is missing.
-/

namespace SceneText

structure CodePage where
  name : String
  encodeChar : Char → Option (List UInt8)
  /-- The character of a byte that stands alone; `none` for a lead byte. -/
  single : UInt8 → Option Char
  pair : UInt8 → UInt8 → Option Char

namespace CodePage

structure EncodeDefect where
  char : Char
  position : Nat
  deriving DecidableEq, Repr

structure DecodeDefect where
  byte : UInt8
  position : Nat
  incomplete : Bool
  deriving DecidableEq, Repr

def encodeFrom (page : CodePage) (pos : Nat) : List Char → Except EncodeDefect (List UInt8)
  | [] => .ok []
  | c :: rest =>
    match page.encodeChar c with
    | none => .error ⟨c, pos⟩
    | some bytes =>
      match encodeFrom page (pos + 1) rest with
      | .error defect => .error defect
      | .ok more => .ok (bytes ++ more)

def encode (page : CodePage) (text : List Char) : Except EncodeDefect (List UInt8) :=
  page.encodeFrom 0 text

def decodeFrom (page : CodePage) (pos : Nat) : List UInt8 → Except DecodeDefect (List Char)
  | [] => .ok []
  | a :: rest =>
    match page.single a with
    | some c =>
      match decodeFrom page (pos + 1) rest with
      | .error defect => .error defect
      | .ok more => .ok (c :: more)
    | none =>
      match rest with
      | [] => .error ⟨a, pos, true⟩
      | b :: rest =>
        match page.pair a b with
        | none => .error ⟨a, pos, false⟩
        | some c =>
          match decodeFrom page (pos + 2) rest with
          | .error defect => .error defect
          | .ok more => .ok (c :: more)

def decode (page : CodePage) (bytes : List UInt8) : Except DecodeDefect (List Char) :=
  page.decodeFrom 0 bytes

/-- Trail bytes run from 40 to FC without 7F; their places count from 0 to 187. -/
def trailPlace? (b : UInt8) : Option Nat :=
  let n := b.toNat
  if 0x40 ≤ n ∧ n ≤ 0x7e then some (n - 0x40)
  else if 0x80 ≤ n ∧ n ≤ 0xfc then some (n - 0x41)
  else none

def trailAt (place : Nat) : UInt8 :=
  UInt8.ofNat (if place < 63 then 0x40 + place else 0x41 + place)

def chart932 : Std.HashMap UInt8 (Array Char) :=
  chartRows.foldl (fun m (lead, pieces) => m.insert lead (String.join pieces).toList.toArray) ∅

/-- The characters of a row with their codes; the row begins at the place `start`. -/
def rowCodes (start : Nat) (row : UInt8 × List String) : List (Char × UInt8 × UInt8) :=
  (String.join row.2).toList.zipIdx.filterMap fun (c, place) =>
    if c = ' ' then none else some (c, row.1, trailAt (start + place))

/-- Lead and trail byte of every charted code point; one charted twice has its first code. -/
def codes932 : Std.HashMap Nat (UInt8 × UInt8) :=
  (chartRows.flatMap (rowCodes 0)).foldl (fun m (c, code) => m.insertIfNew c.toNat code) ∅

/-- Characters that are written with the code of a wide look-alike and not read back. -/
def alias932 : List (Char × UInt8 × UInt8) :=
  [('¢', 0x81, 0x91), ('£', 0x81, 0x92), ('¬', 0x81, 0xca),
   ('‖', 0x81, 0x61), ('−', 0x81, 0x7c), ('〜', 0x81, 0x60)]

def private932? (n : Nat) : Option (UInt8 × UInt8) :=
  if 0xe000 ≤ n ∧ n < 0xe000 + 1880 then
    some (UInt8.ofNat (0xf0 + (n - 0xe000) / 188), trailAt ((n - 0xe000) % 188))
  else none

def double932? (c : Char) : Option (UInt8 × UInt8) :=
  codes932[c.toNat]?.or ((alias932.lookup c).or (private932? c.toNat))

/-- The byte of a character that is stored in one: ASCII, the control 80, half-width kana and four
private-use characters. -/
def single932? (c : Char) : Option UInt8 :=
  let n := c.toNat
  if n ≤ 0x80 then some (UInt8.ofNat n)
  else if 0xff61 ≤ n ∧ n ≤ 0xff9f then some (UInt8.ofNat (n - 0xfec0))
  else if n = 0xf8f0 then some 0xa0
  else if 0xf8f1 ≤ n ∧ n ≤ 0xf8f3 then some (UInt8.ofNat (n - 0xf8f1 + 0xfd))
  else none

def cp932 : CodePage where
  name := "cp932"
  encodeChar c :=
    match single932? c with
    | some b => some [b]
    | none => (double932? c).map fun code => [code.1, code.2]
  single b :=
    let n := b.toNat
    if n ≤ 0x80 then some (Char.ofNat n)
    else if n = 0xa0 then some (Char.ofNat 0xf8f0)
    else if 0xa1 ≤ n ∧ n ≤ 0xdf then some (Char.ofNat (0xfec0 + n))
    else if 0xfd ≤ n then some (Char.ofNat (0xf8f1 + (n - 0xfd)))
    else none
  pair a b :=
    match trailPlace? b with
    | none => none
    | some place =>
      if 0xf0 ≤ a.toNat ∧ a.toNat ≤ 0xf9 then
        some (Char.ofNat (0xe000 + 188 * (a.toNat - 0xf0) + place))
      else
        match chart932[a]? with
        | none => none
        | some row =>
          match row[place]? with
          | none | some ' ' => none
          | some c => some c

end CodePage
end SceneText
