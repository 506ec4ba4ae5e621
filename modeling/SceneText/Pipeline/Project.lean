import SceneText.Pipeline.Library
import SceneText.Pipeline.Parts
import SceneText.Tool.CommandLine

/-!
# The project

The whole chain in two commands: texts are taken out of the game's scripts, and translated texts are
put back and made into what is distributed.
-/

namespace SceneText.Pipeline

open Run Workspace

def settings : Json :=
  .obj [("FONT_FACE", .str "SimHei"), ("CHAR_SET", .int 134), ("FONT_FILTER", .arr
        [.str "ＭＳ ゴシック", .str "俵俽 僑僔僢僋", .str "MS Gothic", .str "", .str "俵俽僑僔僢僋", .str "ＭＳゴシック"]),
     ("ENUM_FONT_PROC_CHAR_SET", .int 128),
     ("WINDOW_TITLE", .str "Outline"),
     ("ARG_NAME", .obj [("value", .str "OUTLINE"), ("type", .str "&str")])]

def hookLists : Json :=
  .obj [("enable", .arr []), ("disable", .arr [.str "PropertySheetA"])]

def features : List String :=
  ["seraph", "bind_text_mapping", "bind_font_manager", "enable_iat_hook",
   "assume_text_out_arg_c_is_byte_len", "bind_window_title_overrider",
   "enable_window_title_override", "disable_forced_font", "bind_user_interface_patcher"]

def exchanges : List Exchange :=
  [{ extract := "python er.py extract --path raw --output raw.json"
     replace := "python er.py replace --path raw --text generated/translated.json" }]

def projectVariable : String := "TEXT_HOOK_PROJECT_PATH"

def extract (shell : Shell) : Run Unit := do
  say "执行提取..."
  shell.demand "python ops.py disasm asmed raw"
  extractAndJoin shell exchanges {} none
  prepare shell "e" "raw.json"

def prepareDocuments (shell : Shell) : Run Unit := do
  generateJson (.plain settings) "config.json"
  generateJson (.plain hookLists) "hook_lists.json"
  copyPath "translated.json" "generated/translated.json" true
  copyPath "raw.json" "generated/raw.json" true
  review shell
  prepare shell "r" "generated/translated.json"
  widen shell
  substitute shell "cp932" {}

def rebuildScripts (shell : Shell) : Run Unit := do
  splitAndReplace shell exchanges {} none
  copyPath "translated" "generated/translated" true
  shell.demand "python ops.py asm generated/translated generated/asmed"
  mergeDirectories "asmed_pass" "generated/asmed" true
  shell.demand "python packer.py pack -i generated/asmed -o generated/dist/Scn_chs.Dat"

def replace (shell : Shell) : Run Unit := do
  say "执行替换..."
  makeClean (Path.Clean.ofText "generated/dist")
  prepareDocuments shell
  rebuildScripts shell
  copyPath "assets/raw_text" "generated/raw_text" true
  copyPath "assets/translated_text" "generated/translated_text" true
  mergeDirectories "assets/dist_pass" "generated/dist" true
  match ← readVariable projectVariable with
  | none => fail (.variableUnset projectVariable)
  | some path =>
    (Library.ofText path).build shell
      { features := .arr (features.map .str), panic := "immediate-abort" }

def chooseDirection (extract replace : Run Unit) (words : List String) : Run Unit := do
  let values ← arguments (Arguments.readCommand "command" false [("e", {}), ("r", {})] words)
  match values.one? "command" with
  | none =>
    emit usage
    exit 1
  | some command => if command = "e" then extract else replace

def main (shell : Shell) (words : List String) : Run Unit :=
  chooseDirection (extract shell) (replace shell) words

end SceneText.Pipeline
