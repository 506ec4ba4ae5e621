/-!
# Binary64 numbers in exact arithmetic

A finite number is a sign, a coefficient below 2^53 and a power of two, the coefficient being as
large as the exponent range allows. Rounding a quotient goes to the nearest such number and, half
way, to the even coefficient. All arithmetic is on naturals.
-/

namespace SceneText

inductive Binary64
  | finite (negative : Bool) (coefficient : Nat) (exponent : Int)
  | infinite (negative : Bool)
  | nan
  deriving DecidableEq, Repr, Inhabited

namespace Binary64

/-- Every finite number is a multiple of 2^-1074. -/
def unitPower : Nat := 1074

def leastExponent : Int := -unitPower
def greatestExponent : Int := 971

def leastFull : Nat := Nat.pow 2 52

def roundDiv (num den : Nat) : Nat :=
  let q := num / den
  let r := num % den
  if 2 * r < den then q
  else if den < 2 * r then q + 1
  else if q % 2 = 0 then q else q + 1

def inUnits (num : Nat) : Nat :=
  num * Nat.pow 2 unitPower

def ofUnits (negative : Bool) (m shift : Nat) : Binary64 :=
  let e := leastExponent + shift
  if greatestExponent < e then .infinite negative else .finite negative m e

/-- The number nearest to a quotient. Its coefficient has 53 bits unless it is a small number of
units. -/
def ofRatio (negative : Bool) (num den : Nat) : Binary64 :=
  let shift := Nat.log2 (inUnits num / den) - 52
  let m := roundDiv (inUnits num) (den * Nat.pow 2 shift)
  if m = 2 * leastFull then ofUnits negative leastFull (shift + 1) else ofUnits negative m shift

/-- The number nearest to `digits * 10^power`. Powers far outside the range are settled first. -/
def ofDecimal (negative : Bool) (digits : Nat) (power : Int) : Binary64 :=
  if digits = 0 then .finite negative 0 leastExponent
  else
    let places : Int := (Nat.toDigits 10 digits).length + power
    if 320 < places then .infinite negative
    else if places < -340 then .finite negative 0 leastExponent
    else if 0 ≤ power then ofRatio negative (digits * Nat.pow 10 power.toNat) 1
    else ofRatio negative digits (Nat.pow 10 (-power).toNat)

def ratio (coefficient : Nat) (exponent : Int) : Nat × Nat :=
  if 0 ≤ exponent then (coefficient * Nat.pow 2 exponent.toNat, 1)
  else (coefficient, Nat.pow 2 (-exponent).toNat)

def compareInt (x : Binary64) (v : Int) : Option Ordering :=
  match x with
  | .nan => none
  | .infinite negative => some (if negative then .lt else .gt)
  | .finite negative m e =>
    let (n, d) := ratio m e
    let left : Int := if negative then -(n : Int) else n
    some (compare left (v * d))

def truncate? : Binary64 → Option Int
  | .finite negative m e =>
    let (n, d) := ratio m e
    some (if negative then -((n / d : Nat) : Int) else (n / d : Nat))
  | _ => none

def twoPlaces (num den : Nat) : String :=
  let cents := roundDiv (num * 100) den
  let low := cents % 100
  toString (cents / 100) ++ "." ++ (if low < 10 then "0" else "") ++ toString low

end Binary64
end SceneText
