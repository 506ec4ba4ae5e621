import SceneText.Archive.Container
import SceneText.Tool.CommandLine

/-!
# Archive tool

Unpacks a scene archive into a directory with a manifest, and packs such a directory again.
-/

namespace SceneText.ArchiveTool

open Run

def manifestName : String := "__META__.json"

def unpackPart (dir : Path.Clean) (count i : Nat) (part : Archive.Part) : Run Unit := do
  say s!"正在提取 {i} 个 (总共{count})"
  writeBytes (dir.append part.name).toText part.content

def unpackParts (dir : Path.Clean) (count : Nat) : Nat → List Archive.Part → Run Unit
  | _, [] => pure ()
  | i, part :: rest => do
    unpackPart dir count i part
    unpackParts dir count (i + 1) rest

def unpack (archive dir : String) : Run Unit := do
  let dir := Path.Clean.ofText dir
  makeClean dir
  let data ← readBytes (Path.Clean.ofText archive).toText
  let parts ← lift (Archive.parts data)
  unpackParts dir parts.length 0 parts
  writeJson (dir.append manifestName).toText (Archive.manifest parts)

def loadPart (dir : Path.Clean) (entry : Json) : Run (List UInt8) := do
  match ← lift (entry.field "name") with
  | .str name =>
    let data ← readBytes (dir.append name).toText
    if (← lift (entry.field "lz")).truthy then
      match Lz.pack data with
      | some packed => return packed
      | none => fail .wordRange
    else return data
  | v => fail (.misuse (.notPathPart v.kind))

/-- Packs the files that the manifest names. The archive file is opened before its header turns out
to be impossible. -/
def pack (dir archive : String) : Run Unit := do
  let dir := Path.Clean.ofText dir
  let manifest ← readJson (dir.append manifestName).toText
  let _ ← lift manifest.size
  let blobs ← (← lift manifest.elements).mapM (loadPart dir)
  let target := (Path.Clean.ofText archive).toText
  writeBytes target []
  writeBytes target (← lift (Archive.build blobs))

def grammar : Arguments.Grammar where
  flags :=
    [{ spellings := ["-i", "--input"], name := "input", required := true },
     { spellings := ["-o", "--out"], name := "out", required := true }]

def main (words : List String) : Run Unit := do
  let values ← arguments
    (Arguments.readCommand "cmd" true [("unpack", grammar), ("pack", grammar)] words)
  let input ← pathOf (values.one "input" "")
  let out ← pathOf (values.one "out" "")
  if values.one? "cmd" = some "unpack" then unpack input out else pack input out

end SceneText.ArchiveTool
