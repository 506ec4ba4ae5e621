/-!
# Byte images with signed positions

An image is a byte string that is read at positions. A negative position counts from the end, as
far as the image reaches; the two ends of a slice are moved into the image, so a slice never fails
and may be shorter than asked for.
-/

namespace SceneText

abbrev Image := Array UInt8

namespace Image

/-- A slice end inside the image: negative ends count from the back, and both sides are clipped. -/
def clip (size : Nat) (i : Int) : Nat :=
  if i < 0 then (i + size).toNat else min i.toNat size

def slice (image : Image) (start stop : Int) : List UInt8 :=
  (image.extract (clip image.size start) (clip image.size stop)).toList

/-- The byte at a position, if the image has that position from either end. -/
def byteAt? (image : Image) (i : Int) : Option UInt8 :=
  if 0 ≤ i then image[i.toNat]?
  else if 0 ≤ i + image.size then image[(i + image.size).toNat]?
  else none

def zeroFrom? (image : Image) (start : Nat) : Option Nat :=
  if h : start < image.size then
    if image[start] = 0 then some start else zeroFrom? image (start + 1)
  else none
termination_by image.size - start

def zero? (image : Image) (start : Int) : Option Nat :=
  zeroFrom? image (if start < 0 then clip image.size start else start.toNat)

def startsAt (image : Image) (signature : List UInt8) (start : Nat) : Bool :=
  match signature with
  | [] => start ≤ image.size
  | b :: rest => image[start]? == some b && startsAt image rest (start + 1)

end Image
end SceneText
