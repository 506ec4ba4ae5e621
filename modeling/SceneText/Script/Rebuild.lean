import SceneText.Script.Opcodes

/-!
# Rebuilding a script from its listing

A listing is stored in two passes. The first one stores every entry to learn where it will stand;
the second one moves the jumps. Moving a jump changes no size, so the places of the first pass hold.
-/

namespace SceneText.Listing

def newOffsets (moves : Moves) (cursor : Nat) : List Json → Except Fault Moves
  | [] => .ok moves
  | entry :: rest => do
    let old ← entry.field "offset"
    let bytes ← assembleEntry .script .little entry
    let old ← old.asKey
    newOffsets (moves.insert old (.int cursor)) (cursor + bytes.length) rest

def fixJumps (file : String) (moves : Moves) (entry : Json) : Except Fault Json := do
  let op ← entry.field "op"
  let isOp (text : String) : Bool := op.sameKey (.str text)
  if Opcodes.jumps.any isOp then
    let value ← entry.field "value"
    let count ← value.size
    moveOperands file moves (indicesBelow count) entry
  else if isOp Opcodes.choice then moveOperands file moves [.int 0, .int 3] entry
  else if isOp Opcodes.guardedJump then moveOperands file moves [.int 0] entry
  else return entry

def fixAllJumps (file : String) (moves : Moves) (entries : List Json) : Except Fault (List Json) :=
  entries.mapM (fixJumps file moves)

def assembleAll (entries : List Json) : Except Fault (List UInt8) := do
  return (← entries.mapM (assembleEntry .script .little)).flatten

def rebuild (file : String) (entries : List Json) : Except Fault (List UInt8) := do
  let moves ← newOffsets [] 0 entries
  assembleAll (← fixAllJumps file moves entries)

end SceneText.Listing
