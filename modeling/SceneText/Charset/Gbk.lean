import SceneText.Charset.CodePage
import SceneText.Charset.GbkChart

/-!
# GBK

The Chinese double-byte code. Lead bytes run from 81 to FE. The rows at the trail bytes A1 to FE
are charted; everything else is the extension, which continues through the remaining places.
-/

namespace SceneText.Gbk

open CodePage

/-- The trail bytes run on to FE; A1 has this place. -/
def rightPlace : Nat := 96

def chartedCodes : List (Char × UInt8 × UInt8) :=
  rightRows.flatMap (rowCodes rightPlace) ++ leftRows.flatMap (rowCodes 0)

def charted : Std.HashMap Nat (UInt8 × UInt8) :=
  chartedCodes.foldl (fun m (c, code) => m.insert c.toNat code) ∅

/-- Every unified ideograph that is not charted, then the compatibility ideographs. -/
def extension : Array Char :=
  let unified := (List.range' 0x4e00 20902).filter fun n => !charted.contains n
  (unified.map Char.ofNat ++ compatibilityIdeographs.toList).toArray

def wholeRows : Nat := 32 * 190

def extensionCode (index : Nat) : UInt8 × UInt8 :=
  if index < wholeRows then (UInt8.ofNat (0x81 + index / 190), trailAt (index % 190))
  else
    let rest := index - wholeRows
    (UInt8.ofNat (0xaa + rest / rightPlace), trailAt (rest % rightPlace))

def codes : Std.HashMap Nat (UInt8 × UInt8) :=
  extension.toList.zipIdx.foldl (fun m (c, i) => m.insert c.toNat (extensionCode i)) charted

def chars : Std.HashMap (UInt8 × UInt8) Char :=
  codes.fold (fun m n code => m.insert code (Char.ofNat n)) ∅

end SceneText.Gbk

namespace SceneText.CodePage

def gbk : CodePage where
  name := "gbk"
  encodeChar c :=
    if c.toNat < 0x80 then some [UInt8.ofNat c.toNat]
    else Gbk.codes[c.toNat]?.map fun (lead, trail) => [lead, trail]
  single b := if b.toNat < 0x80 then some (Char.ofNat b.toNat) else none
  pair a b := Gbk.chars[(a, b)]?

end SceneText.CodePage
