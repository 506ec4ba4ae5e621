import SceneText.Json.Datum

/-!
# LZ packed data

Packed data begins with the size of what it holds. Then come literals, a count below 128 followed by
one byte more than it says, and back references of two bytes, which copy up to 32 bytes from up to
1024 bytes back, one by one, so that a copy may run into itself. Data of size zero holds nothing.

A reference from before the first byte reads from the end of the output, which is still blank there;
a literal may run over the announced size, or be cut short by the end of the data.
-/

namespace SceneText.Lz

inductive Defect
  | noSize
  | beyondData
  | beyondOutput
  deriving DecidableEq, Repr

/-- The byte `distance` before the end of the output so far, in an output of `size` bytes whose rest
is blank. -/
def lookBack (size : Nat) (out : Array UInt8) (distance : Nat) : Option UInt8 :=
  if distance ≤ out.size then out[out.size - distance]?
  else if distance ≤ out.size + size then some (out.getD (out.size + size - distance) 0)
  else none

/-- Copies bytes one by one. The output never grows past its size. -/
def copyBack (size distance : Nat) : Nat → Array UInt8 → Except Defect (Array UInt8)
  | 0, out => .ok out
  | n + 1, out =>
    if size ≤ out.size then .error .beyondOutput
    else match lookBack size out distance with
      | none => .error .beyondOutput
      | some b => copyBack size distance n (out.push b)

def distanceOf (control low : UInt8) : Nat :=
  (control.toNat * 8 + low.toNat / 32) % 1024 + 1

def countOf (low : UInt8) : Nat :=
  low.toNat % 32 + 1

/-- Unpacks tokens into an output of `size` bytes, behind those already there. -/
def unpackInto (size : Nat) (out : Array UInt8) (data : List UInt8) :
    Except Defect (Option (List UInt8)) :=
  if size ≤ out.size then .ok (some out.toList)
  else match data with
    | [] => .ok none
    | control :: rest =>
      if 128 ≤ control.toNat then
        match rest with
        | [] => .error .beyondData
        | low :: rest =>
          match copyBack size (distanceOf control low) (countOf low) out with
          | .error defect => .error defect
          | .ok out => unpackInto size out rest
      else
        let count := control.toNat + 1
        let literal := rest.take count
        if literal.length < count then
          -- The data ends inside the literal, which then still counts in full.
          if size ≤ out.size + count then .ok (some (out.toList ++ literal)) else .ok none
        else unpackInto size (out ++ literal.toArray) (rest.drop count)
termination_by data.length
decreasing_by
  · simp only [List.length_cons]
    omega
  · simp only [List.length_cons, List.length_drop]
    omega

/-- Unpacks data; `none` if it holds nothing or ends before its announced size is reached. -/
def unpack (data : List UInt8) : Except Defect (Option (List UInt8)) :=
  if data.length < 4 then .error .noSize
  else
    let size := ofLowBytes (data.take 4)
    if size = 0 then .ok none else unpackInto size #[] (data.drop 4)

def literals (data : List UInt8) : List UInt8 :=
  if data.isEmpty then []
  else
    let chunk := data.take 128
    UInt8.ofNat (chunk.length - 1) :: chunk ++ literals (data.drop 128)
termination_by data.length
decreasing_by
  have nonempty : data.length ≠ 0 := fun h =>
    ‹¬data.isEmpty = true› (by rw [List.eq_nil_of_length_eq_zero h]; rfl)
  rw [List.length_drop]
  omega

def pack (data : List UInt8) : Option (List UInt8) :=
  if data.length < Width.u32.count then some (word32 data.length ++ literals data) else none

def Defect.fault : Defect → Fault
  | .noSize => .shortWord 4
  | .beyondData => .outOfRange .bytes
  | .beyondOutput => .outOfRange .buffer

/-- Unpacks what is handed over, which has to be a byte string. -/
def unpackDatum : Datum → Except Fault (Option (List UInt8))
  | .bytes data =>
    match unpack data with
    | .ok content => .ok content
    | .error defect => .error defect.fault
  | .plain v => .error (.misuse (.notByteString v.kind))

/-- Packs what is handed over, which has to be a byte string unless it is empty. -/
def packDatum (d : Datum) : Except Fault (List UInt8) := do
  let data ← match d, ← d.size with
    | .bytes data, _ => Except.ok data
    | .plain _, 0 => .ok []
    | .plain v, _ => .error (.misuse (.notByteString v.kind))
  match pack data with
  | some packed => return packed
  | none => .error .wordRange

end SceneText.Lz
