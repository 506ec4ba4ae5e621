import SceneText.Json.Value

/-!
# Reading documents

Reading follows the grammar from the left and stops at the first fault with its kind and position.
Lists and records are read item by item; a key that comes again takes its last value at its first
place. Besides the grammar's own words three names of numbers that are not finite are accepted, and
a byte order mark is a fault of its own. Texts are made of characters: half of a surrogate pair that
stands alone is refused, so that a text can always be stored again.
-/

namespace SceneText.Json

inductive DefectKind
  | byteOrderMark
  | expectingValue
  | expectingName
  | expectingColon
  | expectingComma
  | unterminatedText
  | controlCharacter
  | unknownEscape
  | malformedCodeEscape
  | loneSurrogate
  | extraData
  | numeralTooLong (digits : Nat)
  deriving DecidableEq, Repr

structure Defect where
  kind : DefectKind
  position : Nat
  deriving DecidableEq, Repr

/-- A value read from the front of a text: what it is, where the rest begins, and the rest. -/
abbrev Step (α : Type) := Except Defect (α × Nat × List Char)

def isBlank (c : Char) : Bool :=
  c = ' ' || c = '\t' || c = '\n' || c = '\r'

def skipBlanks (pos : Nat) : List Char → Nat × List Char
  | [] => (pos, [])
  | c :: rest => if isBlank c then skipBlanks (pos + 1) rest else (pos, c :: rest)

def hex4? (a b c d : Char) : Option Nat :=
  match Hex.digit? a, Hex.digit? b, Hex.digit? c, Hex.digit? d with
  | some a, some b, some c, some d => some (((a * 16 + b) * 16 + c) * 16 + d)
  | _, _, _, _ => none

def isHighSurrogate (n : Nat) : Bool := 0xd800 ≤ n && n ≤ 0xdbff
def isLowSurrogate (n : Nat) : Bool := 0xdc00 ≤ n && n ≤ 0xdfff

/-- Characters from code points and escaped code units. Two halves of a surrogate pair that stand
side by side make one character; a half alone makes none. -/
def joinUnits : List Nat → Option (List Char)
  | [] => some []
  | n :: rest =>
    if isHighSurrogate n then
      match rest with
      | low :: rest =>
        if isLowSurrogate low then
          (joinUnits rest).map
            (Char.ofNat (0x10000 + (n - 0xd800) * 1024 + (low - 0xdc00)) :: ·)
        else none
      | [] => none
    else if isLowSurrogate n then none
    else (joinUnits rest).map (Char.ofNat n :: ·)

def letterEscape? (c : Char) : Option Char :=
  if c = '"' ∨ c = '\\' ∨ c = '/' then some c
  else if c = 'b' then some (Char.ofNat 8)
  else if c = 'f' then some (Char.ofNat 12)
  else if c = 'n' then some '\n'
  else if c = 'r' then some '\r'
  else if c = 't' then some '\t'
  else none

/-- Reads the code points of a text up to its closing quote, after those of `seen`, last one first.
`start` is the position of the opening quote. A code escape needs a character after it, since a text
cannot end without its quote. -/
def readUnits (start : Nat) (seen : List Nat) (pos : Nat) : List Char → Step (List Nat)
  | [] => .error ⟨.unterminatedText, start⟩
  | '"' :: rest => .ok (seen.reverse, pos + 1, rest)
  | '\\' :: 'u' :: a :: b :: c :: d :: rest =>
    match rest.isEmpty, hex4? a b c d with
    | false, some n => readUnits start (n :: seen) (pos + 6) rest
    | _, _ => .error ⟨.malformedCodeEscape, pos + 1⟩
  | '\\' :: 'u' :: _ => .error ⟨.malformedCodeEscape, pos + 1⟩
  | '\\' :: c :: rest =>
    match letterEscape? c with
    | none => .error ⟨.unknownEscape, pos⟩
    | some c => readUnits start (c.toNat :: seen) (pos + 2) rest
  | ['\\'] => .error ⟨.unterminatedText, start⟩
  | c :: rest =>
    if c.toNat < 32 then .error ⟨.controlCharacter, pos⟩
    else readUnits start (c.toNat :: seen) (pos + 1) rest

def readText (start : Nat) (text : List Char) : Step String :=
  match readUnits start [] (start + 1) text with
  | .error defect => .error defect
  | .ok (units, pos, rest) =>
    match joinUnits units with
    | some chars => .ok (String.ofList chars, pos, rest)
    | none => .error ⟨.loneSurrogate, start⟩

def maxDigits : Nat := 4300

def words : List (List Char × Json) :=
  [("null".toList, .null), ("true".toList, .bool true), ("false".toList, .bool false),
   ("NaN".toList, .real .nan), ("Infinity".toList, .real (.infinite false)),
   ("-Infinity".toList, .real (.infinite true))]

def readScalar (pos : Nat) (text : List Char) : Step Json :=
  match words.find? fun w => w.1.isPrefixOf text with
  | some (word, v) => .ok (v, pos + word.length, text.drop word.length)
  | none =>
    match scanNumber text with
    | none => .error ⟨.expectingValue, pos⟩
    | some (.whole negative digits, width, rest) =>
      if maxDigits < digits.length then .error ⟨.numeralTooLong digits.length, pos⟩
      else
        let n : Int := natOf digits
        .ok (.int (if negative then -n else n), pos + width, rest)
    | some (.real x, width, rest) => .ok (.real x, pos + width, rest)

mutual

/-- Reads one value; `fuel` bounds the number of values, items and fields still to be read. -/
def readValue : Nat → Nat → List Char → Step Json
  | 0, pos, _ => .error ⟨.expectingValue, pos⟩
  | fuel + 1, pos, text =>
    match text with
    | '"' :: rest =>
      match readText pos rest with
      | .error defect => .error defect
      | .ok (s, pos, rest) => .ok (.str s, pos, rest)
    | '[' :: rest =>
      match skipBlanks (pos + 1) rest with
      | (pos, ']' :: rest) => .ok (.arr [], pos + 1, rest)
      | (pos, rest) =>
        match readItems fuel pos rest with
        | .error defect => .error defect
        | .ok (items, pos, rest) => .ok (.arr items, pos, rest)
    | '{' :: rest =>
      match skipBlanks (pos + 1) rest with
      | (pos, '}' :: rest) => .ok (.obj [], pos + 1, rest)
      | (pos, rest) => readFields fuel [] pos rest
    | _ => readScalar pos text

def readItems : Nat → Nat → List Char → Step (List Json)
  | 0, pos, _ => .error ⟨.expectingValue, pos⟩
  | fuel + 1, pos, text =>
    match readValue fuel pos text with
    | .error defect => .error defect
    | .ok (item, pos, rest) =>
      match skipBlanks pos rest with
      | (pos, ']' :: rest) => .ok ([item], pos + 1, rest)
      | (pos, ',' :: rest) =>
        let (pos, rest) := skipBlanks (pos + 1) rest
        match readItems fuel pos rest with
        | .error defect => .error defect
        | .ok (items, pos, rest) => .ok (item :: items, pos, rest)
      | (pos, _) => .error ⟨.expectingComma, pos⟩

def readFields : Nat → List (String × Json) → Nat → List Char → Step Json
  | 0, _, pos, _ => .error ⟨.expectingName, pos⟩
  | fuel + 1, fields, pos, text =>
    match text with
    | '"' :: rest =>
      match readText pos rest with
      | .error defect => .error defect
      | .ok (key, pos, rest) =>
        match skipBlanks pos rest with
        | (pos, ':' :: rest) =>
          let (pos, rest) := skipBlanks (pos + 1) rest
          match readValue fuel pos rest with
          | .error defect => .error defect
          | .ok (value, pos, rest) =>
            let fields := setField key value fields
            match skipBlanks pos rest with
            | (pos, '}' :: rest) => .ok (.obj fields, pos + 1, rest)
            | (pos, ',' :: rest) =>
              let (pos, rest) := skipBlanks (pos + 1) rest
              readFields fuel fields pos rest
            | (pos, _) => .error ⟨.expectingComma, pos⟩
        | (pos, _) => .error ⟨.expectingColon, pos⟩
    | _ => .error ⟨.expectingName, pos⟩

end

def read (text : List Char) : Except Defect Json :=
  match text with
  | c :: _ =>
    if c.toNat = 0xfeff then .error ⟨.byteOrderMark, 0⟩ else readWhole text
  | [] => readWhole text
where
  readWhole (text : List Char) : Except Defect Json :=
    let (pos, rest) := skipBlanks 0 text
    match readValue (2 * rest.length + 2) pos rest with
    | .error defect => .error defect
    | .ok (v, pos, rest) =>
      match skipBlanks pos rest with
      | (_, []) => .ok v
      | (pos, _) => .error ⟨.extraData, pos⟩

def lineColumn (text : List Char) (pos : Nat) : Nat × Nat :=
  let before := text.take pos
  let line := before.count '\n' + 1
  let column := (before.reverse.takeWhile (· ≠ '\n')).length + 1
  (line, column)

end SceneText.Json
