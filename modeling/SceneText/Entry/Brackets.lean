/-!
# Nested corner brackets

A corner bracket pair that is opened inside another open pair becomes a white corner bracket pair.
A closing bracket pairs with the bracket opened last; one with nothing open is left alone, and so is
a bracket that is never closed.
-/

namespace SceneText.Entry

/-- The places of both ends of every pair opened inside another, from place `i` on; `stack` holds
the places of the open brackets, the last one first. -/
def innerPlaces (i : Nat) (stack : List Nat) : List Char → List Nat
  | [] => []
  | c :: rest =>
    if c = '「' then innerPlaces (i + 1) (i :: stack) rest
    else if c = '」' then
      match stack with
      | [] => innerPlaces (i + 1) [] rest
      | start :: below =>
        if below.isEmpty then innerPlaces (i + 1) [] rest
        else start :: i :: innerPlaces (i + 1) below rest
    else innerPlaces (i + 1) stack rest

def whiteBracket (c : Char) : Char :=
  if c = '「' then '『' else '』'

def whitenNested (text : List Char) : List Char :=
  let places := innerPlaces 0 [] text
  text.zipIdx.map fun (c, i) => if places.contains i then whiteBracket c else c

end SceneText.Entry
