import SceneText.Bytes.Sha256
import SceneText.Tool.CommandLine

/-!
# Duplicate finder

Groups the files of a directory that have the same content: first by size, then by digest. Groups
and their files come in the order of the walk.
-/

namespace SceneText.DuplicatesTool

open Run

def insertGroup {κ α : Type} [DecidableEq κ] (key : κ) (item : α) :
    List (κ × List α) → List (κ × List α)
  | [] => [(key, [item])]
  | (k, items) :: rest =>
    if k = key then (k, items ++ [item]) :: rest else (k, items) :: insertGroup key item rest

def groupBy {κ α : Type} [DecidableEq κ] (keyed : List (κ × α)) : List (κ × List α) :=
  keyed.foldl (fun groups (key, item) => insertGroup key item groups) []

def sizeBound : Int := 0x8000000000000000

/-- What is read of a file block by block. Blocks of no size hold nothing; one block without a
stated size, or of size minus one, holds everything. -/
def seenInBlocks (blockSize : Json) (bytes : List UInt8) : Except Fault (List UInt8) :=
  match blockSize, blockSize.toInt? with
  | _, some n =>
    if n < -sizeBound ∨ sizeBound ≤ n then .error .sizeTooLarge
    else if n < -1 then .error .negativeSize
    else .ok (if n = 0 then [] else bytes)
  | .null, none => .ok bytes
  | v, none => .error (.misuse (.notBlockSize v.kind))

def digestOf (blockSize : Json) (path : String) : Run (Option String) := do
  match ← attempt (readBytes path) with
  | .ok bytes => return some (Sha256.digest (← lift (seenInBlocks blockSize bytes)))
  | .error .zeroInPath => fail .zeroInPath
  | .error _ => return none

def keyedBy {κ : Type} (key : String → Run (Option κ)) : List String → Run (List (κ × String))
  | [] => pure []
  | path :: rest => do
    match ← key path with
    | some k => return (k, path) :: (← keyedBy key rest)
    | none => keyedBy key rest

def sizeOf? (path : String) : Run (Option Nat) := do
  match ← attempt (sizeOf path) with
  | .ok n => return some n
  | .error _ => return none

def blockSize : Json := .int 65536

/-- Parts files by their digests; what is alone in its part is left out. -/
def parted (files : List String) : Run (List (List String)) := do
  let digests := groupBy (← keyedBy (digestOf blockSize) files)
  return (digests.map Prod.snd).filter fun files => files.length > 1

def find (dir : String) : Run (List (List String)) := do
  let files := (← walk dir).flatMap fun visit => visit.files.map (Path.join visit.path)
  let sizes := groupBy (← keyedBy sizeOf? files)
  let groups ← (sizes.filter fun g => g.2.length > 1).mapM fun g => parted g.2
  return groups.flatten

def sayGroups (i : Nat) : List (List String) → Run Unit
  | [] => pure ()
  | group :: rest => do
    say s!"\n组 {i}:"
    group.forM fun path => say s!"  {path}"
    sayGroups (i + 1) rest

def grammar : Arguments.Grammar where
  places := [{ name := "directory" }]

def main (words : List String) : Run Unit := do
  let values ← arguments (grammar.read words)
  let dir ← pathOf (values.one "directory" "")
  if !(← isDirectory dir) then say s!"错误: '{dir}' 不是一个有效的目录"
  else
    say s!"正在检查目录: {dir}"
    let groups ← find dir
    if groups.isEmpty then say "\n未找到重复文件"
    else
      say "\n找到以下重复文件:"
      sayGroups 1 groups

end SceneText.DuplicatesTool
