import SceneText.Number.Shortest

/-!
# Numbers in documents

A number literal has a sign, digits, and perhaps a fraction and an exponent; a point or an exponent
makes it real. Three names stand for the reals that are not finite. A real of a document is one that
a literal stands for, and it is written as the shortest literal that stands for it.
-/

namespace SceneText.Json

def isDigit (c : Char) : Bool := '0' ≤ c && c ≤ '9'

def natOf (digits : List Char) : Nat :=
  digits.foldl (fun n c => 10 * n + (c.toNat - 48)) 0

/-- The numbers that literals and names stand for. -/
inductive Named : Binary64 → Prop
  | nan : Named .nan
  | infinite (negative : Bool) : Named (.infinite negative)
  | decimal (negative : Bool) (digits : Nat) (power : Int) :
      Named (.ofDecimal negative digits power)

@[ext]
structure Real where
  value : Binary64
  named : Named value
  deriving DecidableEq

namespace Real

def nan : Real := ⟨_, .nan⟩

instance : Inhabited Real := ⟨nan⟩

instance : Repr Real := ⟨fun x p => reprPrec x.value p⟩

def infinite (negative : Bool) : Real := ⟨_, .infinite negative⟩

def ofDecimal (negative : Bool) (digits : Nat) (power : Int) : Real :=
  ⟨_, .decimal negative digits power⟩

end Real

inductive NumberToken
  | whole (negative : Bool) (digits : List Char)
  | real (value : Real)
  deriving DecidableEq, Repr

/-- Whether there is a minus sign, how many characters the sign takes, and what follows. A plus sign
is one only where `plus` allows it. -/
def signOf (plus : Bool) (text : List Char) : Bool × Nat × List Char :=
  match text with
  | '-' :: rest => (true, 1, rest)
  | '+' :: rest => if plus then (false, 1, rest) else (false, 0, text)
  | _ => (false, 0, text)

def digitsOf (body : List Char) : List Char × List Char :=
  match body with
  | '0' :: rest => (['0'], rest)
  | _ => (body.takeWhile isDigit, body.dropWhile isDigit)

def scanFraction : List Char → Option (List Char) × List Char
  | '.' :: d :: rest =>
    if isDigit d then (some (d :: rest.takeWhile isDigit), rest.dropWhile isDigit)
    else (none, '.' :: d :: rest)
  | rest => (none, rest)

def scanExponent (text : List Char) : Option (Int × Nat) × List Char :=
  match text with
  | [] => (none, text)
  | e :: rest =>
    if e = 'e' ∨ e = 'E' then
      let (negative, signs, body) := signOf true rest
      let digits := body.takeWhile isDigit
      if digits.isEmpty then (none, text)
      else
        let n : Int := natOf digits
        (some (if negative then -n else n, 1 + signs + digits.length), body.dropWhile isDigit)
    else (none, text)

def numberIn (negative : Bool) (signs : Nat) (digits rest : List Char) :
    Option (NumberToken × Nat × List Char) :=
  if digits.isEmpty then none
  else
    let (fraction, rest) := scanFraction rest
    let (exponent, rest) := scanExponent rest
    match fraction, exponent with
    | none, none => some (.whole negative digits, signs + digits.length, rest)
    | _, _ =>
      let places := fraction.getD []
      let (power, tail) := exponent.getD (0, 0)
      let width := signs + digits.length + (if fraction.isSome then 1 else 0) + places.length + tail
      let value := Real.ofDecimal negative (natOf (digits ++ places)) (power - places.length)
      some (.real value, width, rest)

def scanNumber (text : List Char) : Option (NumberToken × Nat × List Char) :=
  let (negative, signs, body) := signOf false text
  let (digits, rest) := digitsOf body
  numberIn negative signs digits rest

/-- Whether a text is a literal of a number and nothing else. -/
def readsBack (x : Binary64) (text : List Char) : Bool :=
  match scanNumber text with
  | some (.real y, _, []) => y.value = x
  | _ => false

def writeReal : Binary64 → List Char
  | .nan => "NaN".toList
  | .infinite negative => (if negative then "-Infinity" else "Infinity").toList
  | .finite negative m e =>
    let short := (Binary64.shortForms negative m e).find? (readsBack (.finite negative m e))
    short.getD (Binary64.exactForm negative m e)

/-- A number in messages. -/
def Real.literal (x : Real) : List Char :=
  match x.value with
  | .nan => "nan".toList
  | .infinite negative => (if negative then "-inf" else "inf").toList
  | value => writeReal value

end SceneText.Json
