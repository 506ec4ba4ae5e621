import SceneText.Json.Access

/-!
# Reports

A check goes through the entries and writes lines about what it finds. It passes if it has nothing
to write; a fault ends it where it stands, and the lines written so far remain.
-/

namespace SceneText.Review

structure Report where
  lines : List String := []
  fault : Option Fault := none

namespace Report

def clean : Report := {}

def ofLines (lines : List String) : Report := { lines := lines }

def ofFault (fault : Fault) : Report := { fault := some fault }

def passed (r : Report) : Bool :=
  r.lines.isEmpty && r.fault.isNone

def andThen (r : Report) (next : Report) : Report :=
  match r.fault with
  | some _ => r
  | none => { lines := r.lines ++ next.lines, fault := next.fault }

def given {α : Type} (x : Except Fault α) (next : α → Report) : Report :=
  match x with
  | .ok v => next v
  | .error fault => ofFault fault

def each {α : Type} (check : Nat → α → Report) : Nat → List α → Report
  | _, [] => clean
  | i, x :: rest => (check i x).andThen (each check (i + 1) rest)

end Report
end SceneText.Review
