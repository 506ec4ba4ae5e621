/-!
# Wildcards

A wildcard pattern is a sequence of tokens: an asterisk stands for any run of characters, a question
mark for any one character, and brackets for one character of a set. An opening bracket that is
never closed stands for itself.
-/

namespace SceneText.Wildcard

structure CharSet where
  negated : Bool
  ranges : List (Char × Char)
  deriving DecidableEq, Repr

namespace CharSet

def has (s : CharSet) (c : Char) : Bool :=
  (s.ranges.any fun r => r.1.toNat ≤ c.toNat && c.toNat ≤ r.2.toNat) != s.negated

end CharSet

inductive Token
  | run
  | one
  | set (chars : CharSet)
  | char (c : Char)
  deriving DecidableEq, Repr

/-- Reads the inside of brackets: single characters and ranges; a range that runs backwards is
empty. -/
def ranges : List Char → List (Char × Char)
  | a :: '-' :: b :: rest => (a, b) :: ranges rest
  | a :: rest => (a, a) :: ranges rest
  | [] => []

/-- Takes the inside of brackets up to the closing one. The first character does not close, and
neither does the one behind an exclamation mark in the first place. -/
def takeSet (inside : List Char) : Option (CharSet × List Char) :=
  let negated := inside.head? = some '!'
  let body := if negated then inside.drop 1 else inside
  match body with
  | [] => none
  | first :: rest =>
    let more := rest.takeWhile (· ≠ ']')
    match rest.dropWhile (· ≠ ']') with
    | [] => none
    | _ :: after => some (⟨negated, ranges (first :: more)⟩, after)

def tokensWithin : Nat → List Char → List Token
  | 0, _ => []
  | _, [] => []
  | fuel + 1, '*' :: rest => .run :: tokensWithin fuel rest
  | fuel + 1, '?' :: rest => .one :: tokensWithin fuel rest
  | fuel + 1, '[' :: rest =>
    match takeSet rest with
    | some (chars, after) => .set chars :: tokensWithin fuel after
    | none => .char '[' :: tokensWithin fuel rest
  | fuel + 1, c :: rest => .char c :: tokensWithin fuel rest

def tokens (pattern : List Char) : List Token :=
  tokensWithin pattern.length pattern

def someTail (accepted : List Char → Bool) : List Char → Bool
  | [] => accepted []
  | c :: text => accepted (c :: text) || someTail accepted text

def accepts : List Token → List Char → Bool
  | [], text => text.isEmpty
  | .run :: rest, text => someTail (accepts rest) text
  | .one :: rest, text =>
    match text with
    | [] => false
    | _ :: text => accepts rest text
  | .set chars :: rest, text =>
    match text with
    | [] => false
    | c :: text => chars.has c && accepts rest text
  | .char d :: rest, text =>
    match text with
    | [] => false
    | c :: text => d = c && accepts rest text

def isPattern (text : List Char) : Bool :=
  text.any fun c => c = '*' || c = '?' || c = '['

end SceneText.Wildcard
