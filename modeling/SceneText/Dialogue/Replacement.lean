import SceneText.Dialogue.Extraction

/-!
# Putting dialogue back into a listing

The first text of a sentence takes the whole message and the sentence's other texts become empty;
every text of a choice takes a message of its own. Line breaks are dropped, which is allowed only
after a text or a wait. Messages are taken in order from a list that continues over several
listings.
-/

namespace SceneText.Dialogue

structure Rebuild where
  inside : Bool := false
  next : Int
  kept : List Json := []

def setOperand (op : Json) (i : Int) (v : Json) : Except Fault Json := do
  let values ← (← op.field "value").putItem i v
  op.put "value" values

def messageAt (texts : Json) (i : Int) : Except Fault Json := do
  (← texts.item i).field "message"

def fillChoice (texts : Json) : Nat → Int → Int → Json → Except Fault (Json × Int)
  | 0, _, next, op => .ok (op, next)
  | count + 1, i, next, op => do
    let op ← setOperand op i (← messageAt texts next)
    fillChoice texts count (i + 1) (next + 1) op

def breakMayFollow (op : Json) : Except Fault Bool := do
  let signature ← op.field "op"
  return signature.isText "08" || signature.isText "00"

def Rebuild.keep (r : Rebuild) (op : Json) : Rebuild :=
  { r with kept := r.kept ++ [op] }

def Rebuild.step (texts : Json) (r : Rebuild) (op : Json) : Except Fault Rebuild := do
  match Role.ofSignature? (← op.field "op") with
  | some .text =>
    if r.inside then
      return r.keep (← setOperand op 0 (.str ""))
    else
      let op ← setOperand op 0 (← messageAt texts r.next)
      return { r with inside := true, next := r.next + 1, kept := r.kept ++ [op] }
  | some .sentenceEnd => return { r with inside := false, kept := r.kept ++ [op] }
  | some .choice =>
    if r.inside then .error .violated
    else
      let count := (← (← op.field "value").itemsFrom choiceTexts).length
      let (op, next) ← fillChoice texts count choiceTexts r.next op
      return { r with next := next, kept := r.kept ++ [op] }
  | some .lineBreak =>
    match r.kept.getLast? with
    | none => .error (.outOfRange .list)
    | some last => if ← breakMayFollow last then return r else .error .violated
  | _ => return r.keep op

def rebuildAll (texts : Json) (r : Rebuild) : List Json → Except Fault Rebuild
  | [] => .ok r
  | op :: rest => do rebuildAll texts (← r.step texts op) rest

def replace (listing texts : Json) (start : Int) : Except Fault (List Json × Int) := do
  let r ← rebuildAll texts { next := start } (← listing.elements)
  return (r.kept, r.next)

end SceneText.Dialogue
