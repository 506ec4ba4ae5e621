import SceneText.Pipeline.Stages

/-!
# Parts of a document

A project may take its texts out with several commands. Their documents are joined into one, and the
places of the joints are kept; for putting texts back the document is cut at these places again.
-/

namespace SceneText.Pipeline

open Run

structure Exchange where
  extract : String
  replace : String
  deriving DecidableEq, Repr

namespace Exchange

def ofJson (i : Nat) (pair : Json) : Except Fault Exchange :=
  match pair.elements with
  | .ok [extract, replace] => .ok ⟨extract.shown, replace.shown⟩
  | .ok parts => .error (.misuse (.pairSize i parts.length))
  | .error _ => .error (.misuse (.notPair i))

def ofItems (i : Nat) : List Json → List Exchange × Option Fault
  | [] => ([], none)
  | item :: rest =>
    match ofJson i item with
    | .error fault => ([], some fault)
    | .ok exchange =>
      let (more, flaw) := ofItems (i + 1) rest
      (exchange :: more, flaw)

def listOf (v : Json) : List Exchange × Option Fault :=
  match v.elements with
  | .ok items => ofItems 0 items
  | .error fault => ([], some fault)

end Exchange

structure Hooks where
  before : Nat → Run Unit := fun _ => pure ()
  after : Nat → Run Unit := fun _ => pure ()

def hooked (shell : Shell) (hooks : Hooks) (i : Nat) (command : String) : Run Unit := do
  hooks.before i
  shell.demand command
  hooks.after i

def extractParts (shell : Shell) (hooks : Hooks) (i count : Nat) :
    List Exchange → Run (List Json × List Json)
  | [] => pure ([], [])
  | exchange :: rest => do
    hooked shell hooks i exchange.extract
    let document ← readJson "raw.json"
    let count := count + (← lift document.size)
    let entries ← lift document.elements
    let (more, joints) ← extractParts shell hooks (i + 1) count rest
    return (entries ++ more, .int count :: joints)

/-- Takes texts out with all commands and joins their documents. A flaw behind the commands shows
when they have been run. -/
def extractAndJoin (shell : Shell) (exchanges : List Exchange) (hooks : Hooks)
    (flaw : Option Fault) : Run Unit := do
  let (entries, joints) ← extractParts shell hooks 0 0 exchanges
  flaw.forM fail
  writeJson "raw.json" (.arr entries)
  writeJson "splits.json" (.arr joints)

def bound (v : Json) : Except Fault (Option Int) :=
  match v with
  | .null => .ok none
  | v =>
    match v.toInt? with
    | some n => .ok (some n)
    | none => .error (.misuse (.notBound v.kind))

def part (document low high : Json) : Except Fault Json := do
  document.slice (← bound low) (← bound high)

/-- Puts the parts back one after the other. The file is opened before its part is known. -/
def replaceParts (shell : Shell) (hooks : Hooks) (document joints : Json) (i : Nat) (low : Json) :
    List Exchange → Run Unit
  | [] => pure ()
  | exchange :: rest => do
    writeText "generated/translated.json" ""
    let high ← lift (joints.item i)
    writeJson "generated/translated.json" (← lift (part document low high))
    hooked shell hooks i exchange.replace
    replaceParts shell hooks document joints (i + 1) high rest

/-- Cuts the translated document at its joints, puts each part back and restores the document. A
flaw behind the commands shows when they have been run. -/
def splitAndReplace (shell : Shell) (exchanges : List Exchange) (hooks : Hooks)
    (flaw : Option Fault) : Run Unit := do
  let document ← readJson "generated/translated.json"
  let joints ← readJson "splits.json"
  let document ← lift document.copy
  replaceParts shell hooks document joints 0 (.int 0) exchanges
  flaw.forM fail
  writeJson "generated/translated.json" document

end SceneText.Pipeline
