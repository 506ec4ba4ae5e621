import SceneText.FileTree.NaturalOrder
import SceneText.Script.Rebuild
import SceneText.Tool.CommandLine

/-!
# Listing tool

Disassembles every script of a directory into a listing, and assembles every listing again.
-/

namespace SceneText.ListingTool

open Run Arguments

def counterpart (file input : String) (output : Value) (rename : String → String) :
    Run String := do
  let place ← relative file input
  return Path.join (← pathOf output) (rename place)

def disassembleFile (input : String) (output : Value) (file : String) : Run Unit := do
  if Text.hasSuffix file "json" then return ()
  let data ← readBytes file
  let result := Disassembly.run CodePage.cp932 Opcodes.table data.toArray
  match ← lift (result.report file 0) with
  | some line => say line
  | none => pure ()
  let target ← counterpart file input output fun rel => rel ++ ".json"
  makeDirectories true (Path.directory target)
  writeJson target (.arr (result.instructions.map Instruction.toJson))

def disassemble (input output : Value) : Run Unit := do
  let input ← pathOf input
  (← collectFiles input none).forM (disassembleFile input output)

def dropLastChars (n : Nat) (s : String) : String :=
  String.ofList (s.toList.take (s.length - n))

def assembleFile (input : String) (output : Value) (file : String) : Run Unit := do
  let entries ← lift (← readJson file).elements
  let script ← lift (Listing.rebuild file entries)
  let target ← counterpart file input output (dropLastChars 5)
  makeDirectories true (Path.directory target)
  writeBytes target script

def assemble (input output : Value) : Run Unit := do
  let input ← pathOf input
  (← collectFiles input (some "json")).forM (assembleFile input output)

def grammar : Arguments.Grammar where
  places := [{ name := "mode", allowed := .words ["disasm", "asm"] }, { name := "input" },
     { name := "output" }]

def main (words : List String) : Run Unit := do
  let values ← arguments (grammar.read words)
  let input := values.one "input" ""
  let output := values.one "output" ""
  if values.one? "mode" = some "disasm" then
    disassemble input output
    say s!"反汇编完成: {input.shown} -> {output.shown}"
  else if values.one? "mode" = some "asm" then
    assemble input output
    say s!"汇编完成: {input.shown} -> {output.shown}"

end SceneText.ListingTool
