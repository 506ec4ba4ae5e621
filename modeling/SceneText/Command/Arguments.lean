import SceneText.Text.Numeral
import SceneText.Text.Search

/-!
# Command line arguments

A command line mixes options, which start with a dash, with values that are told apart by their
place. Options may be cut short as long as they stay unique, and take their value from behind an
equals sign, from the rest of the word, or from the next word. A word that looks like a negative
number or has a blank in it is a value, and so is every word behind a double dash. A double dash in
the place of a value is taken out and leaves nothing behind. Asking for help and a mistake both end
the reading at once.
-/

namespace SceneText.Arguments

inductive Arity
  | none
  | one
  | many
  deriving DecidableEq, Repr

inductive Allowed
  | any
  | words (choices : List String)
  | numeral
  deriving DecidableEq, Repr

namespace Allowed

def accepts : Allowed → String → Bool
  | .any, _ => true
  | .words choices, s => choices.contains s
  | .numeral, s => (Numeral.read s.toList).toOption.isSome

end Allowed

structure Flag where
  spellings : List String
  name : String
  arity : Arity := .one
  allowed : Allowed := .any
  required : Bool := false
  deriving DecidableEq, Repr

def helpFlag : Flag where
  spellings := ["-h", "--help"]
  name := "help"
  arity := .none

structure Place where
  name : String
  optional : Bool := false
  allowed : Allowed := .any
  deriving DecidableEq, Repr

structure Grammar where
  flags : List Flag := []
  places : List Place := []
  deriving DecidableEq, Repr

/-- The values by name; an option given again keeps its last values. A name without any value is one
whose only word was a double dash. -/
abbrev Values := List (String × List String)

inductive Early
  | help
  | mistake
  deriving DecidableEq, Repr

/-- An option found in a word: the option, unless it is unknown, the spelling, and the value that
the word itself holds. -/
structure Hit where
  flag : Option Flag
  spelling : String
  held : Option String
  deriving DecidableEq, Repr

inductive Word
  | value (text : String)
  | dashes
  | option (text : String) (hit : Hit)
  deriving DecidableEq, Repr

namespace Word

def text : Word → String
  | .value s => s
  | .dashes => "--"
  | .option s _ => s

def isOption : Word → Bool
  | .option _ _ => true
  | _ => false

end Word

def spellingsOf (flags : List Flag) : List (String × Flag) :=
  flags.flatMap fun f => f.spellings.map fun s => (s, f)

/-- A dash and digits, with at most one point before the last digits. -/
def isNegativeNumeral (word : List Char) : Bool :=
  match word with
  | '-' :: rest =>
    let body := if rest.getLast? = some '\n' then rest.dropLast else rest
    match Text.splitFirst '.' body with
    | none => !body.isEmpty && body.all Text.isDecimal
    | some (whole, part) =>
      whole.all Text.isDecimal && !part.isEmpty && part.all Text.isDecimal
  | _ => false

def candidates (flags : List Flag) (word : List Char) : List Hit :=
  match word with
  | '-' :: '-' :: _ =>
    let (start, held) := match Text.splitFirst '=' word with
      | some (before, after) => (before, some (String.ofList after))
      | none => (word, none)
    (spellingsOf flags).filterMap fun (s, f) =>
      if start.isPrefixOf s.toList then some { flag := f, spelling := s, held := held } else none
  | '-' :: c :: rest =>
    (spellingsOf flags).filterMap fun (s, f) =>
      if s.toList = ['-', c] then
        some { flag := f, spelling := s, held := some (String.ofList rest) }
      else if word.isPrefixOf s.toList then some { flag := f, spelling := s, held := none }
      else none
  | _ => []

def exactHit? (flags : List Flag) (word : String) : Option Hit :=
  match (spellingsOf flags).lookup word with
  | some f => some { flag := f, spelling := word, held := none }
  | none =>
    match Text.splitFirst '=' word.toList with
    | none => none
    | some (before, after) =>
      let spelling := String.ofList before
      ((spellingsOf flags).lookup spelling).map fun f =>
        ⟨some f, spelling, some (String.ofList after)⟩

/-- The kind of a word in front of any double dash. A word that is short for several options is a
mistake. -/
def classify (flags : List Flag) (word : String) : Except Early Word :=
  match word.toList with
  | '-' :: _ :: _ =>
    match exactHit? flags word with
    | some hit => .ok (.option word hit)
    | none =>
      match candidates flags word.toList with
      | [hit] => .ok (.option word hit)
      | _ :: _ :: _ => .error .mistake
      | [] =>
        if isNegativeNumeral word.toList || word.toList.contains ' ' then .ok (.value word)
        else .ok (.option word { flag := none, spelling := word, held := none })
  | _ => .ok (.value word)

def classifyAll (flags : List Flag) : List String → Except Early (List Word)
  | [] => .ok []
  | word :: rest =>
    if word = "--" then .ok (.dashes :: rest.map .value)
    else do
      let w ← classify flags word
      return w :: (← classifyAll flags rest)

/-- What stands at a place: a value, or a command with all that follows. -/
inductive Slot
  | value (place : Place)
  | command (name : String) (required : Bool)
  deriving DecidableEq, Repr

def dashRun (words : List Word) : Nat :=
  (words.takeWhile (· = .dashes)).length

def startsWithValue : List Word → Bool
  | .value _ :: _ => true
  | _ => false

def countDown (high low : Nat) : List Nat :=
  (List.range (high + 1 - low)).map (high - ·)

/-- How many words a slot may take from the head, the preferred count first. -/
def slotCounts (slot : Slot) (words : List Word) : List Nat :=
  let lead := dashRun words
  let rest := words.drop lead
  let taken :=
    if startsWithValue rest then countDown (lead + 1 + dashRun (rest.drop 1)) (lead + 1) else []
  match slot with
  | .value place => if place.optional then taken ++ countDown lead 0 else taken
  | .command _ _ => if startsWithValue rest then countDown words.length (lead + 1) else []

def matchSlots : List Slot → List Word → Option (List Nat)
  | [], _ => some []
  | slot :: slots, words =>
    (slotCounts slot words).findSome? fun n =>
      (matchSlots slots (words.drop n)).map (n :: ·)

def matchFirst (slots : List Slot) (words : List Word) : Nat → List Nat
  | 0 => []
  | n + 1 =>
    match matchSlots (slots.take (n + 1)) words with
    | some counts => counts
    | none => matchFirst slots words n

structure Reading where
  slots : List Slot
  values : Values := []
  extras : Bool := false
  deriving DecidableEq, Repr

def setValues (name : String) (vs : List String) (values : Values) : Values :=
  (values.filter fun v => v.1 ≠ name) ++ [(name, vs)]

abbrev Enter := String → List String → Option (Except Early (Values × Bool))

def fillSlot (enter : Enter) (r : Reading) (slot : Slot) (words : List Word) :
    Except Early Reading :=
  match slot with
  | .value place =>
    let texts := (words.map Word.text).erase "--"
    if place.optional && texts.isEmpty then .ok r
    else if texts.all place.allowed.accepts then
      .ok { r with values := setValues place.name texts r.values }
    else .error .mistake
  | .command name _ =>
    match words.map Word.text with
    | [] => .error .mistake
    | command :: rest =>
      match enter command rest with
      | none => .error .mistake
      | some (.error early) => .error early
      | some (.ok (values, extras)) =>
        .ok { r with
          values := setValues name [command] r.values ++ values
          extras := r.extras || extras }

def fillSlots (enter : Enter) (r : Reading) : List (Slot × Nat) → List Word → Except Early Reading
  | [], _ => .ok r
  | (slot, n) :: rest, words => do
    fillSlots enter (← fillSlot enter r slot (words.take n)) rest (words.drop n)

def takePlaces (enter : Enter) (r : Reading) (words : List Word) :
    Except Early (Nat × Reading) := do
  let counts := matchFirst r.slots words r.slots.length
  let r' ← fillSlots enter r (r.slots.zip counts) words
  return (counts.foldl (· + ·) 0, { r' with slots := r.slots.drop counts.length })

def giveFlag (r : Reading) (flag : Flag) (words : List String) : Except Early Reading :=
  let values := words.erase "--"
  match flag.arity with
  | .none => .error .help
  | _ =>
    if values.all flag.allowed.accepts then
      .ok { r with values := setValues flag.name values r.values }
    else .error .mistake

/-- Letters behind the help option are options of their own, and an unknown one is a mistake. One
that takes a value takes it from the rest of the word or from the next word. -/
def letters (flags : List Flag) (rest : List Word) : List Char → Early
  | [] => .help
  | c :: more =>
    match (spellingsOf flags).lookup (String.ofList ['-', c]) with
    | none => .mistake
    | some flag =>
      match flag.arity, more with
      | .none, more => letters flags rest more
      | _, [] => if startsWithValue rest then .help else .mistake
      | _, _ :: _ => .help

def takeFlag (flags : List Flag) (r : Reading) (hit : Hit) (rest : List Word) :
    Except Early (Reading × List Word) :=
  match hit.flag with
  | none => .ok ({ r with extras := true }, rest)
  | some flag =>
    match flag.arity, hit.held with
    | .none, none => .error .help
    | .none, some held =>
      if hit.spelling.length = 2 && !held.isEmpty then
        .error (letters flags rest held.toList)
      else .error .mistake
    | _, some held => do return (← giveFlag r flag [held], rest)
    | .one, none =>
      match rest with
      | .value v :: rest => do return (← giveFlag r flag [v], rest)
      | _ => .error .mistake
    | .many, none =>
      match rest.takeWhile fun w => startsWithValue [w] with
      | [] => .error .mistake
      | taken => do return (← giveFlag r flag (taken.map Word.text), rest.drop taken.length)

def readWords (flags : List Flag) (enter : Enter) :
    Nat → Reading → List Word → Except Early (Reading × List Word)
  | 0, r, words => .ok (r, words)
  | fuel + 1, r, words =>
    if !words.any Word.isOption then .ok (r, words)
    else do
      let (n, r) ← if startsWithOption words then pure (0, r) else takePlaces enter r words
      if n > 0 then readWords flags enter fuel r (words.drop n)
      else
        let loose := words.takeWhile fun w => !w.isOption
        let r := { r with extras := r.extras || !loose.isEmpty }
        match words.drop loose.length with
        | .option _ hit :: rest =>
          let (r, rest) ← takeFlag flags r hit rest
          readWords flags enter fuel r rest
        | rest => .ok (r, rest)
where
  startsWithOption : List Word → Bool
    | w :: _ => w.isOption
    | [] => false

def slotMissing : Slot → Bool
  | .value place => !place.optional
  | .command _ required => required

def flagMissing (values : Values) (flag : Flag) : Bool :=
  flag.required && !values.any fun v => v.1 = flag.name

def readAll (flags : List Flag) (slots : List Slot) (enter : Enter) (words : List String) :
    Except Early (Values × Bool) := do
  let flags := helpFlag :: flags
  let words ← classifyAll flags words
  let (r, rest) ← readWords flags enter words.length { slots := slots } words
  let (n, r) ← takePlaces enter r rest
  let extras := r.extras || n < rest.length
  if r.slots.any slotMissing || flags.any (flagMissing r.values) then .error .mistake
  else return (r.values, extras)

def noCommand : Enter := fun _ _ => none

def Grammar.read (g : Grammar) (words : List String) : Except Early Values := do
  match ← readAll g.flags (g.places.map .value) noCommand words with
  | (values, false) => return values
  | (_, true) => .error .mistake

def readCommand (name : String) (required : Bool) (commands : List (String × Grammar))
    (words : List String) : Except Early Values := do
  let enter : Enter := fun command rest =>
    (commands.lookup command).map fun g => readAll g.flags (g.places.map .value) noCommand rest
  match ← readAll [] [.command name required] enter words with
  | (values, false) => return values
  | (_, true) => .error .mistake

/-- A single value, which is missing if a double dash stood in its place. -/
abbrev Value := Option String

namespace Value

def shown (value : Value) : String :=
  value.getD "[]"

end Value

namespace Values

def one (values : Values) (name substitute : String) : Value :=
  match values.lookup name with
  | none => some substitute
  | some given => given.getLast?

def one? (values : Values) (name : String) : Option String :=
  (values.lookup name).bind List.getLast?

def many (values : Values) (name : String) : List String :=
  (values.lookup name).getD []

end Values
end SceneText.Arguments
