import SceneText.Command.Words
import SceneText.Session

/-!
# Shells

A shell carries commands out. One kind answers from a script; another runs the tools of this library
in the session at hand and leaves other commands to a shell behind it. Every command is recorded in
the session, and what it prints is passed on unless it is captured.
-/

namespace SceneText

structure Outcome where
  code : Int := 0
  out : String := ""
  err : String := ""
  fault : Option Fault := none

structure Shell where
  run : String → Run (Option Outcome)

structure Request where
  text : String
  check : Bool := true
  capture : Bool := false
  keepErrors : Bool := false
  limit : Json := .null
  directory : Option String := none

def flagsVariable : String := "RUSTFLAGS"

namespace Run

def readVariable (name : String) : Run (Option String) := do
  return (← get).environment.lookup name

def setVariable (name value : String) : Run Unit :=
  modify fun s =>
    { s with environment := (name, value) :: s.environment.filter fun v => v.1 ≠ name }

/-- Runs a tool with output channels of its own and tells how it ended, if it ends. -/
def isolated (tool : Run Unit) : Run Outcome := do
  let outer ← get
  set { outer with out := "", err := "" }
  let result ← ExceptT.mk (tool.run >>= fun r => pure (.ok r))
  let inner ← get
  set { inner with out := outer.out, err := outer.err }
  let outcome : Outcome := { out := inner.out, err := inner.err }
  match result with
  | .ok _ => return outcome
  | .error (.exit code) => return { outcome with code := code }
  | .error (.fault .endless) => fail .endless
  | .error (.fault fault) => return { outcome with code := 1, fault := some fault }

end Run

namespace Shell

open Run

def place (file : String × List UInt8) : Run Unit := do
  let dir := Path.directory file.1
  if !dir.isEmpty then makeDirectories true dir
  writeBytes file.1 file.2

def scripted : Shell where
  run _ := do
    let reply := (← get).replies.head?.getD {}
    modify fun s => { s with replies := s.replies.tail }
    if reply.timedOut then return none
    reply.files.forM place
    return some { code := reply.code, out := reply.out, err := reply.err }

def toolWord : String := "python "

def noTool : Outcome := { code := 2 }

def within (tool : String → Option (List String → Run Unit)) (behind : Shell) : Shell where
  run text := do
    if Text.hasPrefix text toolWord then
      match Words.split text with
      | some (_ :: name :: words) =>
        match tool (Path.collapsed name) with
        | some main => return some (← isolated (main words))
        | none => return some noTool
      | _ => return some noTool
    else behind.run text

def finishRecord (outcome : Outcome) (record : CommandRecord) : CommandRecord :=
  { record with exit := some outcome.code, raised := outcome.fault }

def perform (shell : Shell) (text : String) (directory : Option String) : Run Outcome := do
  let flags ← readVariable flagsVariable
  let place := (← get).commands.length
  modify fun s =>
    { s with commands := s.commands ++ [{ text := text, directory := directory, flags := flags }] }
  match ← shell.run text with
  | none => fail (.commandTimedOut text)
  | some outcome =>
    modify fun s => { s with commands := s.commands.modify place (finishRecord outcome) }
    return outcome

def passOn (request : Request) (outcome : Outcome) : Run Unit := do
  if !request.capture then
    emit outcome.out
    if !request.keepErrors then emitError outcome.err

/-- Carries a request out. A failure is reported before it goes on as a fault. -/
def system (shell : Shell) (request : Request) : Run Outcome := do
  match ← attempt (shell.perform request.text request.directory) with
  | .error (.commandTimedOut text) =>
    complain s!"命令执行超时 (>{request.limit.shown}秒)"
    fail (.commandTimedOut text)
  | .error fault => fail fault
  | .ok outcome =>
    passOn request outcome
    if request.check && outcome.code ≠ 0 then
      if !request.capture then
        complain s!"命令执行失败，退出码: {outcome.code}"
        if request.keepErrors && !outcome.err.isEmpty then complain s!"错误信息: {outcome.err}"
      fail (.commandFailed request.text outcome.code)
    return outcome

def demand (shell : Shell) (text : String) : Run Unit := do
  let _ ← shell.system { text := text }

end Shell
end SceneText
