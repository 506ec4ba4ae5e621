import SceneText.Json.Access

/-!
# Limits

A limit on a length is a whole number or a real. A length is compared with it by value; with a real
that is not a number it compares in no way, so that it is neither within nor beyond.
-/

namespace SceneText.Layout

inductive Limit
  | whole (value : Int)
  | real (value : Binary64)
  deriving DecidableEq, Repr

namespace Limit

def ofJson? : Json → Option Limit
  | .int n => some (.whole n)
  | .bool b => some (.whole (if b then 1 else 0))
  | .real x => some (.real x.value)
  | _ => none

def ofJson (relation : String) (v : Json) : Except Fault Limit :=
  match ofJson? v with
  | some limit => .ok limit
  | none => .error (.misuse (.notOrdered relation "int" v.kind))

def compare? (limit : Limit) (length : Nat) : Option Ordering :=
  match limit with
  | .whole n => some (compare n (length : Int))
  | .real x => x.compareInt length

def admits (limit : Limit) (length : Nat) : Bool :=
  match limit.compare? length with
  | none | some .lt => false
  | some _ => true

def isExceededBy (limit : Limit) (length : Nat) : Bool :=
  limit.compare? length = some .lt

end Limit
end SceneText.Layout
