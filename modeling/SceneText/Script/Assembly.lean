import SceneText.Script.Disassembly

/-!
# Assembly and jumps

A listing entry is stored as its signature followed by its operands. Operands that hold offsets of
instructions are moved along when sizes change: each is looked up among the old offsets and takes
the new one under its own tag. A jump to an offset that no entry has is refused, and the refusal
shows the entry as far as it has been changed.
-/

namespace SceneText.Listing

def signatureOf (entry : Json) : Except Fault (List UInt8) :=
  match entry.field "op" with
  | .error fault => .error fault
  | .ok (.str s) =>
    match Hex.read s.toList with
    | .ok bytes => .ok bytes
    | .error position => .error (.notHex position)
  | .ok v => .error (.misuse (.notHexText v.kind))

def storeAll (store : Json → Except Fault (List UInt8)) : List Json → Except Fault (List UInt8)
  | [] => .ok []
  | v :: rest =>
    match store v with
    | .error fault => .error fault
    | .ok bytes =>
      match storeAll store rest with
      | .error fault => .error fault
      | .ok more => .ok (bytes ++ more)

/-- The stored bytes of an entry whose operands are stored in a given way. An entry without operands
may leave the field out. -/
def assembleWith (store : Json → Except Fault (List UInt8)) (entry : Json) :
    Except Fault (List UInt8) :=
  match signatureOf entry with
  | .error fault => .error fault
  | .ok signature =>
    match entry.get "value" (.arr []) with
    | .error fault => .error fault
    | .ok value =>
      match value.elements with
      | .error fault => .error fault
      | .ok operands =>
        match storeAll store operands with
        | .error fault => .error fault
        | .ok bytes => .ok (signature ++ bytes)

def assembleEntry (code : TextCode) (order : ByteOrder) (entry : Json) :
    Except Fault (List UInt8) :=
  assembleWith (Operand.storeJson code order) entry

/-- New offsets by old ones. An old offset may be any key of a document. -/
abbrev Moves := List (Json × Json)

namespace Moves

def insert (key new : Json) : Moves → Moves
  | [] => [(key, new)]
  | (k, v) :: rest => if k.sameKey key then (k, new) :: rest else (k, v) :: insert key new rest

def target? (moves : Moves) : Datum → Option Json
  | .bytes _ => none
  | .plain v => (List.find? (fun m => m.1.sameKey v) moves).map Prod.snd

end Moves

def moveOperand (file : String) (moves : Moves) (entry index : Json) : Except Fault Json := do
  let value ← entry.field "value"
  let operand ← Operand.ofJson (← value.select index)
  match moves.target? operand.datum with
  | none => .error (.refused (.lostJump file entry.literal operand.datum.shown))
  | some new =>
    let text ← Operand.writeAs operand.tag (.plain new)
    entry.put "value" (← value.assign index (.str text))

def moveOperands (file : String) (moves : Moves) : List Json → Json → Except Fault Json
  | [], entry => .ok entry
  | index :: rest, entry =>
    match moveOperand file moves entry index with
    | .error fault => .error fault
    | .ok entry => moveOperands file moves rest entry

inductive JumpRule
  | all
  | at (indices : Json)

def indicesBelow (n : Nat) : List Json :=
  (List.range n).map fun i => .int (i : Nat)

def JumpRule.indices (rule : JumpRule) (entry : Json) : Except Fault (List Json) :=
  match rule with
  | .at indices => indices.elements
  | .all => do
    let value ← entry.field "value"
    return indicesBelow (← value.size)

def relocateEntry (file : String) (moves : Moves) (rules : List (String × JumpRule))
    (entry : Json) : Except Fault Json := do
  match ← (← entry.field "op").asKey with
  | .str op =>
    match rules.lookup op with
    | none => return entry
    | some rule => moveOperands file moves (← rule.indices entry) entry
  | _ => return entry

def relocate (file : String) (moves : Moves) (rules : List (String × JumpRule)) :
    List Json → Except Fault (List Json)
  | [] => .ok []
  | entry :: rest =>
    match relocateEntry file moves rules entry with
    | .error fault => .error fault
    | .ok entry =>
      match relocate file moves rules rest with
      | .error fault => .error fault
      | .ok rest => .ok (entry :: rest)

end SceneText.Listing
