/-!
# Paired quotes

Five kinds of quotes open and close. A closing quote pairs with the quote opened last if that is of
its kind; otherwise it is surplus. What is still open at the end is unclosed.
-/

namespace SceneText.Review

def quotePairs : List (Char × Char) :=
  [('「', '」'), ('『', '』'), ('“', '”'), ('‘', '’'), ('（', '）')]

def isOpening (c : Char) : Bool :=
  quotePairs.any fun p => p.1 = c

def opener? (c : Char) : Option Char :=
  (quotePairs.find? fun p => p.2 = c).map Prod.fst

structure Placed where
  quote : Char
  place : Nat
  deriving DecidableEq, Repr

/-- What pairing leaves over: surplus closing quotes, and unclosed opening quotes in text order. -/
structure Leftover where
  surplus : List Placed
  unclosed : List Placed
  deriving DecidableEq, Repr

def pairFrom (i : Nat) (stack : List Placed) : List Char → Leftover
  | [] => ⟨[], stack.reverse⟩
  | c :: rest =>
    if isOpening c then pairFrom (i + 1) (⟨c, i⟩ :: stack) rest
    else match opener? c with
      | none => pairFrom (i + 1) stack rest
      | some o =>
        match stack with
        | top :: below =>
          if top.quote = o then pairFrom (i + 1) below rest
          else
            let left := pairFrom (i + 1) stack rest
            { left with surplus := ⟨c, i⟩ :: left.surplus }
        | [] =>
          let left := pairFrom (i + 1) stack rest
          { left with surplus := ⟨c, i⟩ :: left.surplus }

def pairQuotes (text : List Char) : Leftover :=
  pairFrom 0 [] text

def surplusFrom (i : Nat) (stack : List Char) : List Char → List Nat
  | [] => []
  | c :: rest =>
    if isOpening c then surplusFrom (i + 1) (c :: stack) rest
    else match opener? c with
      | none => surplusFrom (i + 1) stack rest
      | some o =>
        match stack with
        | top :: below =>
          if top = o then surplusFrom (i + 1) below rest
          else i :: surplusFrom (i + 1) stack rest
        | [] => i :: surplusFrom (i + 1) stack rest

def bracketed (unit : String) : String :=
  "【" ++ unit ++ "】"

def markPlaces (places : List Nat) (units : List String) : List String :=
  units.zipIdx.map fun (u, i) => if places.contains i then bracketed u else u

end SceneText.Review
