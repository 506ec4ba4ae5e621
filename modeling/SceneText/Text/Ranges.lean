/-!
# Ranges of code points

Character classes are lists of inclusive ranges of code points.
-/

namespace SceneText.Text

def rangesFrom (next : Nat) : List Nat → List (Nat × Nat)
  | gap :: length :: rest =>
    (next + gap, next + gap + length - 1) :: rangesFrom (next + gap + length) rest
  | _ => []

def inRanges (ranges : List (Nat × Nat)) (n : Nat) : Bool :=
  ranges.any fun r => r.1 ≤ n && n ≤ r.2

end SceneText.Text
