import SceneText.Layout.Limit
import SceneText.Layout.Measure
import SceneText.Text.Lowercase

/-!
# Truncation

A translated text that is wider than the text it stands for loses characters from its end until it
fits. Engine marks at the end are protected: the character in front of them goes instead. If only
marks are left and the text is still too wide, truncation is refused.
-/

namespace SceneText.Layout

def protectedMarks : List String := ["@p", "@k", "@r"]

def folded (foldCase : Bool) (text : List Char) : List Char :=
  if foldCase then Text.lowerChars text else text

def foldedBytes (foldCase : Bool) (data : List UInt8) : List UInt8 :=
  if foldCase then data.map fun b => if 65 ≤ b ∧ b ≤ 90 then b + 32 else b else data

def markRun {α : Type} [BEq α] (marks : List (List α)) : Nat → List α → Nat
  | 0, _ => 0
  | fuel + 1, text =>
    match marks.find? fun m => !m.isEmpty && m.reverse.isPrefixOf text with
    | none => 0
    | some m => m.length + markRun marks fuel (text.drop m.length)

def trailingRun (marks : List String) (foldCase : Bool) (text : List Char) : Nat :=
  let text := folded foldCase text
  markRun (marks.map fun m => folded foldCase m.toList) text.length text.reverse

def cutBefore {α : Type} (run : Nat) (text : List α) : Option (List α) :=
  match run with
  | 0 => some text.dropLast
  | run => if text.length ≤ run then none else some (text.eraseIdx (text.length - run - 1))

def cutOne? (marks : List String) (foldCase : Bool) (text : List Char) : Option (List Char) :=
  cutBefore (trailingRun marks foldCase text) text

def cutDown (limit : Limit) (marks : List String) (foldCase : Bool) :
    Nat → List Char → Except Fault (List Char)
  | fuel, text =>
    if !limit.isExceededBy (span text) then .ok text
    else match cutOne? marks foldCase text, fuel with
      | none, _ => .error (.refused .onlyTokensLeft)
      | some _, 0 => .error .endless
      | some shorter, fuel + 1 => cutDown limit marks foldCase fuel shorter

/-- Truncates a text. An empty text that does not fit can never be cut to fit. -/
def truncate (limit : Limit) (marks : List String) (foldCase : Bool) (text : List Char) :
    Except Fault (List Char) :=
  cutDown limit marks foldCase text.length text

/-- Marks as they are given: values with a length, and the fault of one behind them without. -/
structure GivenMarks where
  units : List Datum
  flaw : Option Fault := none

namespace GivenMarks

def ofUnit (foldCase : Bool) (d : Datum) : Except Fault (Option Datum) :=
  if !d.truthy then .ok none
  else match d, foldCase with
    | .plain (.str _), _ | .bytes _, _ => .ok (some d)
    | d, true => .error (.misuse (.noOperation d.kind "lower"))
    | d, false => d.size.map fun _ => some d

def ofUnits (foldCase : Bool) : List Datum → GivenMarks
  | [] => { units := [] }
  | d :: rest =>
    match ofUnit foldCase d with
    | .error fault => { units := [], flaw := some fault }
    | .ok mark =>
      let more := ofUnits foldCase rest
      { more with units := mark.toList ++ more.units }

def ofWalk (foldCase : Bool) (walk : Except Fault (List Datum)) : GivenMarks :=
  match walk with
  | .ok units => ofUnits foldCase units
  | .error fault => { units := [], flaw := some fault }

def ofTexts (texts : List String) : GivenMarks :=
  { units := texts.map fun s => .plain (.str s) }

def texts (marks : GivenMarks) : List String :=
  marks.units.filterMap fun d =>
    match d with
    | .plain (.str s) => some s
    | _ => none

def lists (marks : GivenMarks) : List (List Json) :=
  marks.units.filterMap fun d =>
    match d with
    | .plain (.arr items) => some items
    | _ => none

def byteStrings (marks : GivenMarks) (foldCase : Bool) : List (List UInt8) :=
  marks.units.filterMap fun d =>
    match d with
    | .bytes data => some (foldedBytes foldCase data)
    | _ => none

def anyWithin (marks : GivenMarks) (length : Nat) : Bool :=
  marks.units.any fun d =>
    match d.size with
    | .ok n => n ≤ length
    | .error _ => false

/-- A run of marks over a length. A flaw shows where no mark in front of it fits any more. -/
def check (marks : GivenMarks) (length run : Nat) : Except Fault Nat :=
  match marks.flaw with
  | some fault => if length ≤ run then .ok run else .error fault
  | none => .ok run

/-- Length of the run of marks at the end of a value. A mark ends only what is of its own kind. -/
def runAt (marks : GivenMarks) (foldCase : Bool) (value : Datum) : Except Fault Nat :=
  match value with
  | .plain (.str s) =>
    marks.check (folded foldCase s.toList).length (trailingRun marks.texts foldCase s.toList)
  | .bytes data =>
    let run := markRun (marks.byteStrings foldCase) data.length (foldedBytes foldCase data).reverse
    marks.check data.length run
  | .plain v =>
    if !v.truthy then .ok 0
    else if foldCase then .error (.misuse (.noOperation v.kind "lower"))
    else match v, v.size with
      | .arr items, _ =>
        marks.check items.length (@markRun Json ⟨Json.equal⟩ marks.lists items.length items.reverse)
      | _, .error fault => .error fault
      | _, .ok n =>
        if marks.anyWithin n then .error (.misuse (.notKey "slice")) else marks.check n 0

end GivenMarks

def cutItem? (limit : Limit) (marks : GivenMarks) (foldCase : Bool) (items : List Json) :
    Except Fault (Option (List Json)) := do
  if !limit.isExceededBy (span (← charsOf (.arr items))) then return none
  else
    match cutBefore (← marks.runAt foldCase (.plain (.arr items))) items with
    | none => .error (.refused .onlyTokensLeft)
    | some shorter => return some shorter

def cutItems (limit : Limit) (marks : GivenMarks) (foldCase : Bool) :
    Nat → List Json → Except Fault Json
  | fuel, items =>
    match cutItem? limit marks foldCase items, fuel with
    | .error fault, _ => .error fault
    | .ok none, _ => .ok (.arr items)
    | .ok (some _), 0 => .error .endless
    | .ok (some shorter), fuel + 1 => cutItems limit marks foldCase fuel shorter

def truncateValue (limit : Limit) (marks : GivenMarks) (foldCase : Bool) (value : Json) :
    Except Fault Json := do
  match value with
  | .str s =>
    if limit.isExceededBy (span s.toList) then
      let _ ← marks.runAt foldCase (.plain value)
    return .str (String.ofList (← truncate limit marks.texts foldCase s.toList))
  | .arr items => cutItems limit marks foldCase items.length items
  | v =>
    if limit.isExceededBy (span (← charsOf v)) then
      let _ ← marks.runAt foldCase (.plain v)
      .error .endless
    else return v

/-- Truncates what is handed over. The only byte string made of characters is the empty one. -/
def truncateDatum (limit : Limit) (marks : GivenMarks) (foldCase : Bool) (d : Datum) :
    Except Fault Datum := do
  let short ← truncateValue limit marks foldCase d.sequence
  match d with
  | .plain _ => return .plain short
  | .bytes _ => return d

def isUnbounded (entry : Json) : Except Fault Bool := do
  return (← entry.get "length_unbounded" .null).isTrue

def storedSize (text : List Char) : Except Fault Nat :=
  match CodePage.cp932.encode text with
  | .ok bytes => .ok bytes.length
  | .error defect => .error (.unencodable CodePage.cp932.name defect)

def orEmpty (v : Json) : Json :=
  if v.truthy then v else .str ""

/-- The room for a field: as the translated entry says, or what the source text takes. -/
def roomFor (i : Nat) (key : String) (source translated : Json) : Except Fault Json := do
  let stated := key ++ "_orig_len"
  if ← translated.has stated then translated.field stated
  else match source with
    | .str s =>
      match storedSize s.toList with
      | .ok n => return .int n
      | .error fault =>
        .error (.refused (.sourceUnencodable i key CodePage.cp932.name fault.message))
    | v => .error (.misuse (.noOperation v.kind "encode"))

def fitText (i : Nat) (key : String) (room text result : Json) : Except Fault Json := do
  let width := span (← charsOf text)
  let limit ← Limit.ofJson "<=" room
  if limit.admits width then return result
  else match truncateValue limit (.ofTexts protectedMarks) true text with
    | .ok short => result.put key short
    | .error (.refused reason) =>
      .error (.refused (.cannotTruncate i key room.shown width reason.message))
    | .error fault => .error fault

def fitField (i : Nat) (source translated : Json) (result : Json) (key : String) :
    Except Fault Json := do
  if !(← source.has key) then return result
  else
    let sourceText := orEmpty (← source.get key .null)
    let text := orEmpty (← translated.get key .null)
    let room ← roomFor i key sourceText translated
    fitText i key room text result

def lacksField (source translated : Json) (key : String) : Except Fault Bool := do
  if ← source.has key then return !(← translated.has key) else return false

/-- The record to start from, and whether it stays as it is. -/
def opening (i : Nat) (source translated : Json) : Except Fault (Json × Bool) := do
  if ← lacksField source translated "name" then .error (.refused (.fieldMissing i "name"))
  else if ← lacksField source translated "message" then
    .error (.refused (.fieldMissing i "message"))
  else
    let record ← translated.toRecord
    return (record, ← isUnbounded source)

def fitEntry (i : Nat) (source translated : Json) : Except Fault Json := do
  let start ← opening i source translated
  if start.2 then return start.1
  else
    let named ← fitField i source translated start.1 "name"
    fitField i source translated named "message"

def fitAll : Nat → List (Json × Json) → Except Fault (List Json)
  | _, [] => .ok []
  | i, (source, translated) :: rest => do
    let entry ← fitEntry i source translated
    let more ← fitAll (i + 1) rest
    return entry :: more

def fitEntries (sources targets : Json) : Except Fault (List Json) := do
  let n ← sources.size
  let m ← targets.size
  if n ≠ m then .error (.refused (.countMismatch n m))
  else fitAll 0 ((← sources.elements).zip (← targets.elements))

end SceneText.Layout
