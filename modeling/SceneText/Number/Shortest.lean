import SceneText.Number.Binary64

/-!
# Decimal forms of a number

A finite number is written with the fewest decimal digits whose value rounds to it; of two such
digit strings of one length, the nearer one, and half way between two the even one. Seventeen digits
always suffice. The exact form, which has as many digits as it takes, stands behind them.
-/

namespace SceneText.Binary64

def leadingPower (num den : Nat) : Int :=
  let atLeast (p : Int) : Bool :=
    if 0 ≤ p then den * Nat.pow 10 p.toNat ≤ num else den ≤ num * Nat.pow 10 (-p).toNat
  let guess : Int := ((Nat.log2 num : Int) - Nat.log2 den) * 30103 / 100000
  if atLeast (guess + 1) then guess + 1
  else if atLeast guess then guess
  else guess - 1

structure Digits where
  value : Nat
  power : Int
  deriving DecidableEq, Repr

/-- The neighbours of `num / den` among the decimals with `count` digits, nearer one first
and half way the even one. -/
def neighbours (num den count : Nat) : List Digits :=
  let power := leadingPower num den - (count - 1 : Nat)
  let (n, d) :=
    if 0 ≤ power then (num, den * Nat.pow 10 power.toNat)
    else (num * Nat.pow 10 (-power).toNat, den)
  let below := n / d
  let r := n % d
  if 2 * r < d || (2 * r = d && below % 2 = 0) then [⟨below, power⟩, ⟨below + 1, power⟩]
  else [⟨below + 1, power⟩, ⟨below, power⟩]

def trimZeros (ds : List Char) : List Char :=
  (ds.reverse.dropWhile (· = '0')).reverse

/-- A power of ten with a sign and at least two digits. -/
def exponentText (p : Int) : List Char :=
  let digits := Nat.toDigits 10 p.natAbs
  (if p < 0 then '-' else '+') :: (List.replicate (2 - digits.length) '0' ++ digits)

/-- Significant digits `ds`, the first one at the power `lead` of ten. Positional notation is used
for powers from -4 up to 15; a positional number always has a point with a digit on both sides. -/
def layout (ds : List Char) (lead : Int) : List Char :=
  if -4 ≤ lead && lead < 16 then
    if lead < 0 then '0' :: '.' :: (List.replicate ((-lead).toNat - 1) '0' ++ ds)
    else
      let whole := lead.toNat + 1
      let front := ds.take whole ++ List.replicate (whole - ds.length) '0'
      let back := ds.drop whole
      front ++ '.' :: (if back.isEmpty then ['0'] else back)
  else
    match ds with
    | [] => []
    | [d] => d :: 'e' :: exponentText lead
    | d :: rest => d :: '.' :: rest ++ 'e' :: exponentText lead

def signed (negative : Bool) (text : List Char) : List Char :=
  if negative then '-' :: text else text

def Digits.form (negative : Bool) (t : Digits) : List Char :=
  let all := Nat.toDigits 10 t.value
  let ds := match trimZeros all with
    | [] => ['0']
    | ds => ds
  signed negative (layout ds (t.power + all.length - 1))

/-- The forms with up to seventeen digits that come nearest to a finite number. -/
def shortForms (negative : Bool) (m : Nat) (e : Int) : List (List Char) :=
  let (num, den) := ratio m e
  let decimals := if m = 0 then [⟨0, 0⟩] else (List.range' 1 17).flatMap (neighbours num den)
  decimals.map (Digits.form negative)

def exactDigits (m : Nat) (e : Int) : Nat :=
  m * Nat.pow 2 (e + unitPower).toNat * Nat.pow 5 unitPower

/-- A finite number in full, as a multiple of a power of ten. -/
def exactForm (negative : Bool) (m : Nat) (e : Int) : List Char :=
  let power : Int := -unitPower
  signed negative (Nat.toDigits 10 (exactDigits m e) ++ 'e' :: (toString power).toList)

end SceneText.Binary64
