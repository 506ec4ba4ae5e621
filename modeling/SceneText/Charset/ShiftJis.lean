import SceneText.Charset.CodePage

/-!
# Plain Shift_JIS

The charset that page 932 extends. It shares the chart but has fewer rows, no private characters,
and the narrow signs at six places where page 932 has wide ones.
-/

namespace SceneText.CodePage

/-- Wide sign of page 932 and narrow sign of the plain charset, by place. -/
def narrowSigns : List (Char × Char) :=
  [('∥', '‖'), ('－', '−'), ('～', '〜'), ('￠', '¢'), ('￡', '£'), ('￢', '¬')]

def isPlainLead (b : UInt8) : Bool :=
  let n := b.toNat
  (0x81 ≤ n && n ≤ 0x84) || (0x88 ≤ n && n ≤ 0x9f) || (0xe0 ≤ n && n ≤ 0xea)

/-- The yen sign and the overline are written as a backslash and a tilde and not read back. -/
def shiftJis : CodePage where
  name := "shift_jis"
  encodeChar c :=
    let n := c.toNat
    if n < 0x80 then some [UInt8.ofNat n]
    else if 0xff61 ≤ n ∧ n ≤ 0xff9f then some [UInt8.ofNat (n - 0xfec0)]
    else if n = 0xa5 then some [0x5c]
    else if n = 0x203e then some [0x7e]
    else if (narrowSigns.lookup c).isSome then none
    else match double932? c with
      | some (lead, trail) => if isPlainLead lead then some [lead, trail] else none
      | none => none
  single b :=
    let n := b.toNat
    if n < 0x80 then some (Char.ofNat n)
    else if 0xa1 ≤ n ∧ n ≤ 0xdf then some (Char.ofNat (0xfec0 + n))
    else none
  pair a b :=
    if isPlainLead a then (cp932.pair a b).map fun c => (narrowSigns.lookup c).getD c
    else none

end SceneText.CodePage
