/-!
# Integer fields

The six integer fields of a scene script: their names, sizes and ranges, and their byte images in
either byte order. Negative values are stored in two's complement.
-/

namespace SceneText

inductive Width
  | u8 | u16 | u32 | i8 | i16 | i32
  deriving DecidableEq, Repr

inductive ByteOrder
  | little | big
  deriving DecidableEq, Repr

namespace Width

def all : List Width := [.u8, .u16, .u32, .i8, .i16, .i32]

def name : Width → String
  | .u8 => "u8"
  | .u16 => "u16"
  | .u32 => "u32"
  | .i8 => "i8"
  | .i16 => "i16"
  | .i32 => "i32"

def ofName? (tag : String) : Option Width :=
  all.find? fun w => w.name = tag

def size : Width → Nat
  | .u8 | .i8 => 1
  | .u16 | .i16 => 2
  | .u32 | .i32 => 4

def signed : Width → Bool
  | .u8 | .u16 | .u32 => false
  | .i8 | .i16 | .i32 => true

def count : Width → Nat
  | .u8 | .i8 => 0x100
  | .u16 | .i16 => 0x10000
  | .u32 | .i32 => 0x100000000

def least (w : Width) : Int :=
  if w.signed then -(w.count / 2 : Nat) else 0

def greatest (w : Width) : Int :=
  if w.signed then (w.count / 2 : Nat) - 1 else (w.count : Int) - 1

def fits (w : Width) (v : Int) : Bool :=
  w.least ≤ v && v ≤ w.greatest

end Width

def lowBytes : Nat → Nat → List UInt8
  | 0, _ => []
  | n + 1, v => UInt8.ofNat (v % 256) :: lowBytes n (v / 256)

def ofLowBytes : List UInt8 → Nat
  | [] => 0
  | b :: rest => b.toNat + 256 * ofLowBytes rest

namespace Width

/-- The stored bytes of a value; a value out of range is taken modulo the field's count. -/
def encode (w : Width) (order : ByteOrder) (v : Int) : List UInt8 :=
  let bytes := lowBytes w.size (v % (w.count : Int)).toNat
  match order with
  | .little => bytes
  | .big => bytes.reverse

def decode (w : Width) (bytes : List UInt8) : Int :=
  let raw := ofLowBytes bytes
  if w.signed && w.count / 2 ≤ raw then (raw : Int) - w.count else raw

end Width

def word32 (n : Nat) : List UInt8 := lowBytes 4 n

end SceneText
