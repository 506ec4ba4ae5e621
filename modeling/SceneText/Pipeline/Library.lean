import SceneText.Pipeline.Stages
import SceneText.Workspace.Copy
import SceneText.Workspace.Rename

/-!
# Building the hook library

The library that shows translated texts in the game is built by its own project. Its assets are
exchanged for those of this project, the build command is run there, and the result is copied here
and given the name that the game looks for.
-/

namespace SceneText.Pipeline

open Run Workspace

structure Library where
  project : Path.Clean
  deriving DecidableEq, Repr

structure BuildPlan where
  features : Json
  architecture : String := "x86"
  panic : String := "unwind"
  clean : Bool := false

namespace Library

def ofText (path : String) : Library :=
  ⟨Path.Clean.ofText path⟩

def assets (library : Library) : Path.Clean :=
  ((library.project.append "crates").append "text-hook").append "assets"

def generated : Run Path.Clean := do
  return (← workPath).append "generated"

def distribution : Run Path.Clean := do
  return (← generated).append "dist"

def isFilled (dir : Path.Clean) : Run Bool := do
  if ← occupied dir.toText then return !(← listNames dir.toText).isEmpty else return false

def optionalAssets : List String := ["font", "hijacked", "x64dbg_1337_patch"]

def patchAssets : List String :=
  ["raw", "translated", "raw_text", "translated_text", "resource_pack", "misc"]

def documentAssets : List String :=
  ["mapping.json", "translated.json", "raw.json", "config.json", "hook_lists.json", "sjis_ext.bin"]

def exchangeOptional (library : Library) (name : String) : Run Unit := do
  let source := ((← workPath).append "assets").append name
  let target := (library.assets.append name).toText
  if ← isFilled source then
    say s!"检测到非空的 {name} 目录: {source.toText}"
    if ← occupied target then
      removeTree target
      say s!"已删除目标 {name} 目录: {target}"
    copyPath source.toText target true
  else say s!"{name} 目录不存在或为空: {source.toText}"

def exchangePatch (library : Library) (name : String) : Run Unit := do
  let source := ((← generated).append name).toText
  let target := (library.assets.append name).toText
  if ← occupied target then
    removeTree target
    say s!"已删除: {target}"
  if ← occupied source then copyPath source target true
  else say s!"源 {name} 目录不存在: {source}，忽略"

def copyDocument (library : Library) (name : String) : Run Unit := do
  let source := ((← generated).append name).toText
  if ← occupied source then
    say s!"复制 {name}"
    copyPath source library.assets.toText true

def copyAssets (library : Library) : Run Unit := do
  makeClean library.assets
  let old := (library.assets.append "dist").toText
  if ← occupied old then
    removeTree old
    say s!"已删除 assets 中的 dist 目录: {old}"
  optionalAssets.forM library.exchangeOptional
  patchAssets.forM library.exchangePatch
  documentAssets.forM library.copyDocument

def targetOf : String → Option (String × String)
  | "x86" => some ("build-text-hook", "target/i686-pc-windows-msvc/release/text_hook.dll")
  | "x64" => some ("build-text-hook64", "target/x86_64-pc-windows-msvc/release/text_hook.dll")
  | _ => none

def panics : List String := ["unwind", "abort", "immediate-abort"]

def buildCommand (panic recipe : String) (features : List String) : String :=
  let joined := ",".intercalate features
  if panic = "immediate-abort" then s!"cargo +nightly {recipe} --features {joined} -Z build-std"
  else s!"cargo {recipe} --features {joined}"

def flagsFor (panic : String) : String :=
  if panic = "immediate-abort" then "-C panic=immediate-abort -Z unstable-options"
  else s!"-C panic={panic}"

def runBuild (library : Library) (shell : Shell) (plan : BuildPlan) (recipe : String) :
    Run Unit := do
  let root := library.project.toText
  let features ← lift (Json.joinable 0 (← lift plan.features.elements))
  let command := buildCommand plan.panic recipe features
  if plan.panic = "immediate-abort" then say "使用 Nightly 工具链编译 (immediate-abort 模式)"
  say s!"在项目根目录 {root} 中执行构建命令: {command}"
  say s!"目标架构: {plan.architecture}, 使用 panic 策略: {plan.panic}"
  setVariable flagsVariable (flagsFor plan.panic)
  if plan.clean then
    say "执行 cargo clean 以确保所有依赖按新策略重新编译..."
    let _ ← shell.system { text := "cargo clean", directory := some root }
  let _ ← shell.system { text := command, directory := some root }

def renameBuilt (built : String) : Run Unit := do
  let hijacked := ((← workPath).append "assets").append "hijacked"
  if ← isFilled hijacked then
    say s!"检测到非空的 hijacked 目录: {hijacked.toText}"
    match ← listNames hijacked.toText with
    | [name] =>
      say s!"将 DLL 重命名为: {name}"
      renameFile built name true
    | names =>
      say s!"警告: hijacked 目录包含 {names.length} 个文件，但预期只有1个文件"
      say "跳过 DLL 重命名"
  else say s!"hijacked 目录不存在或为空: {hijacked.toText}"

def mergeDistribution (library : Library) : Run Unit := do
  let extra := (library.assets.append "dist").toText
  if ← occupied extra then
    let target := (← distribution).toText
    say s!"检测到 assets 中的 dist 目录，合并到: {target}"
    mergeDirectories extra target true
    say "合并完成"

def compile (library : Library) (shell : Shell) (plan : BuildPlan) : Run Unit := do
  if !panics.contains plan.panic then refuse .unknownPanic
  match targetOf plan.architecture with
  | none => refuse .unknownArchitecture
  | some (recipe, place) =>
    makeClean (← distribution)
    library.runBuild shell plan recipe
    let result := (library.project.append place).toText
    if !(← occupied result) then refuse (.libraryMissing result)
    let built := ((← distribution).append "text_hook.dll").toText
    copyPath result built true
    renameBuilt built
    library.mergeDistribution
    say s!"DLL 构建并复制成功: {built}"

def build (library : Library) (shell : Shell) (plan : BuildPlan) : Run Unit := do
  say s!"开始构建流程 ({plan.architecture})..."
  say s!"panic 策略: {plan.panic}"
  library.copyAssets
  say "资源文件复制完成"
  library.compile shell plan
  say "构建流程完成"

end Library
end SceneText.Pipeline
