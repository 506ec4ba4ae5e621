import SceneText.Archive.Lz
import SceneText.Text.Numeral

/-!
# Scene archives

An archive begins with the number of its parts less one and, for each part, the offset at which it
begins; the first offset is where the index ends. A part reaches to the next one's offset, the last
one to the end of the archive. A part that unpacks to something is kept unpacked, any other as it
is.
-/

namespace SceneText.Archive

structure Part where
  name : String
  content : List UInt8
  packed : Bool
  /-- The distance between the part's offset and the next; negative if they are out of order. -/
  span : Int
  deriving DecidableEq, Repr

def words : Nat → List UInt8 → Option (List Nat)
  | 0, _ => some []
  | n + 1, data =>
    if data.length < 4 then none
    else (words n (data.drop 4)).map (ofLowBytes (data.take 4) :: ·)

def offsets (data : List UInt8) : Except Fault (List Nat) :=
  match words 1 data with
  | none | some [] => .error (.shortWord 4)
  | some (last :: _) =>
    match words (last + 1) (data.drop 4) with
    | none => .error (.shortWord 4)
    | some index =>
      if index.head? = some ((last + 1) * 4 + 4) then .ok (index ++ [data.length])
      else .error .violated

def partName (i : Nat) : String := Numeral.padded 5 i

def partOf (data : List UInt8) (i start stop : Nat) : Part :=
  let chunk := (data.drop start).take (stop - start)
  let span := (stop : Int) - start
  match Lz.unpack chunk with
  | .ok (some (b :: rest)) => ⟨partName i, b :: rest, true, span⟩
  | _ => ⟨partName i, chunk, false, span⟩

def partsFrom (data : List UInt8) (i : Nat) : List Nat → List Part
  | start :: stop :: rest => partOf data i start stop :: partsFrom data (i + 1) (stop :: rest)
  | _ => []

def parts (data : List UInt8) : Except Fault (List Part) :=
  match offsets data with
  | .ok index => .ok (partsFrom data 0 index)
  | .error fault => .error fault

def Part.record (p : Part) : Json :=
  .obj [("name", .str p.name), ("lz", .bool p.packed), ("size", .int p.span)]

def manifest (ps : List Part) : Json :=
  .arr (ps.map Part.record)

def begins (cursor : Nat) : List (List UInt8) → List Nat
  | [] => []
  | blob :: rest => cursor :: begins (cursor + blob.length) rest

/-- An archive of blobs. There must be one at least, and every offset must fit a word. -/
def build (blobs : List (List UInt8)) : Except Fault (List UInt8) :=
  let index := begins (4 + 4 * blobs.length) blobs
  if blobs.isEmpty || index.any (Width.u32.count ≤ ·) then .error .wordRange
  else .ok (word32 (blobs.length - 1) ++ index.flatMap word32 ++ blobs.flatten)

end SceneText.Archive
