import SceneText.Bytes.Hex
import SceneText.Text.Printable

/-!
# Quoted literals

Text inside messages is shown between single quotes, or between double quotes if it holds a single
quote and no double one. The quote and the backslash are escaped, line feed, carriage return and
tab have short escapes, and every other character that is not printable is shown by its number in
two, four or eight hexadecimal digits. Byte strings are shown alike after the letter b, with only
printable ASCII shown as it is.
-/

namespace SceneText.Text

def quoteFor (text : List Char) : Char :=
  if text.contains '\'' && !text.contains '"' then '"' else '\''

def shortEscape? (c : Char) : Option (List Char) :=
  if c = '\\' then some ['\\', '\\']
  else if c = '\n' then some ['\\', 'n']
  else if c = '\r' then some ['\\', 'r']
  else if c = '\t' then some ['\\', 't']
  else none

def numberEscape (n : Nat) : List Char :=
  if n < 0x100 then '\\' :: 'x' :: (Hex.paddedLower 2 n).toList
  else if n < 0x10000 then '\\' :: 'u' :: (Hex.paddedLower 4 n).toList
  else '\\' :: 'U' :: (Hex.paddedLower 8 n).toList

def quotedChar (quote c : Char) : List Char :=
  if c = quote then ['\\', c]
  else match shortEscape? c with
    | some escape => escape
    | none => if isPrintable c then [c] else numberEscape c.toNat

def quotedChars (text : List Char) : List Char :=
  let quote := quoteFor text
  quote :: text.flatMap (quotedChar quote) ++ [quote]

def quoted (text : String) : String :=
  String.ofList (quotedChars text.toList)

def quotedByte (quote : Char) (b : UInt8) : List Char :=
  let c := Char.ofNat b.toNat
  if c = quote then ['\\', c]
  else match shortEscape? c with
    | some escape => escape
    | none => if 32 ≤ b.toNat && b.toNat < 127 then [c] else numberEscape b.toNat

def quotedBytes (bytes : List UInt8) : String :=
  let quote := quoteFor (bytes.map fun b => Char.ofNat b.toNat)
  String.ofList ('b' :: quote :: bytes.flatMap (quotedByte quote) ++ [quote])

end SceneText.Text
