import RpiFastbootd.Fastboot.Handlers

/-!
# The command loop

`ExecuteCommands` reads a command, finds its handler in the command map, calls it, and decides by
`DecideAfterCommand` how to go on.  A handler that throws ends the session with a reply; a command
that has no handler, or that holds a control character, is answered by the loop itself.
-/

namespace RpiFastbootd

/-- `BuildCommandMap`. -/
def commandMap : String → Option CommandHandler
  | "set_active" => some .setActive
  | "download" => some .download
  | "stage" => some .download
  | "upload" => some .upload
  | "getvar" => some .getVar
  | "shutdown" => some .shutDown
  | "reboot" => some .reboot
  | "reboot-bootloader" => some .rebootBootloader
  | "erase" => some .erase
  | "flash" => some .flash
  | "oem" => some .oem
  | "fetch" => some .fetch
  | _ => none

/-- `BuildDataPlaneCommandMap`. -/
def dataPlaneCommandMap : String → Option CommandHandler
  | "download" => some .download
  | "flash" => some .flash
  | "getvar" => some .getVarDataPlane
  | _ => none

def CommandHandler.run (build : Build) : CommandHandler → List String → DeviceM Bool
  | setActive, args => FastbootDevice.setActiveHandler args
  | download, args => FastbootDevice.downloadHandler args
  | upload, _ => FastbootDevice.uploadHandler
  | getVar, args => FastbootDevice.getVarHandler args
  | getVarDataPlane, args => FastbootDevice.getVarHandlerDataPlane args
  | shutDown, _ => FastbootDevice.shutDownHandler
  | reboot, _ => FastbootDevice.rebootHandler
  | rebootBootloader, _ => FastbootDevice.rebootBootloaderHandler
  | erase, args => FastbootDevice.eraseHandler args
  | flash, args => FastbootDevice.flashHandler args
  | oem, args => FastbootDevice.oemCmdHandler build args
  | fetch, args => FastbootDevice.fetchHandler build args

/-- The build of the daemon and the command map of the session. -/
structure SessionConfig where
  build : Build
  dataPlaneOnly : Bool

def SessionConfig.map (config : SessionConfig) : String → Option CommandHandler :=
  if config.dataPlaneOnly then dataPlaneCommandMap else commandMap

def iscntrl (b : Byte) : Bool := b.toNat < 32 ∨ b.toNat = 127

/-- The fields of a command; an `oem` command line is one field. -/
def commandArgs (command : String) : List String :=
  if hasPrefix "oem " command then [command] else split ':' command

def commandName (command : String) : String :=
  if hasPrefix "oem " command then "oem" else (split ':' command).headD ""

/-- What the loop makes of the bytes of a command. -/
inductive Parsed
  | controlCharacter
  | unrecognized (args : List String)
  | command (handler : CommandHandler) (args : List String)
  deriving DecidableEq, Repr

def SessionConfig.parse (config : SessionConfig) (bytes : List Byte) : Parsed :=
  if bytes.any iscntrl then .controlCharacter
  else
    let command := FastbootDevice.text bytes
    match config.map (commandName command) with
    | none => .unrecognized (commandArgs command)
    | some handler => .command handler (commandArgs command)

inductive AfterCommand
  | nextCommand
  | replyFailThenNext
  | endSession
  deriving DecidableEq, Repr

def decideAfterCommand (handlerOk replied transportFailed : Bool) : AfterCommand :=
  if transportFailed then .endSession
  else if !handlerOk && !replied then .replyFailThenNext
  else .nextCommand

theorem commandArgs_ne_nil (command : String) : commandArgs command ≠ [] := by
  unfold commandArgs
  split_ifs
  · exact List.cons_ne_nil _ _
  · exact split_ne_nil _ _

theorem SessionConfig.length_args_pos {config : SessionConfig} {bytes : List Byte}
    {args : List String} (h : config.parse bytes = .unrecognized args) : 0 < args.length := by
  unfold SessionConfig.parse at h
  dsimp only at h
  split_ifs at h
  split at h
  · cases h
    exact List.length_pos_iff.2 (commandArgs_ne_nil _)
  · cases h

namespace FastbootDevice

/-- A handler in its `try` block: its result, or what it has thrown. -/
def attempt (handler : DeviceM Bool) : DeviceM (Except String Bool) :=
  (handler >>= fun ok => pure (Except.ok ok)).rescue fun
    | .threw what => pure (Except.error what)
    | e => Prog.stop e

/-- Whether the session goes on after a handler. -/
def afterCommand (handlerOk : Bool) : DeviceM Bool := do
  let d ← Prog.state
  match decideAfterCommand handlerOk d.replied d.transportFailed with
  | .endSession => return false
  | .replyFailThenNext => do
    let _ ← writeFail "command failed"
    return !(← Prog.state).transportFailed
  | .nextCommand => return true

/-- A command that has a handler. -/
def dispatch (config : SessionConfig) (handler : CommandHandler) (args : List String) :
    DeviceM Bool := do
  Prog.update fun d => { d with replied := false }
  (Prog.ask (Call.dispatch handler args) : DeviceM Unit)
  match ← attempt (handler.run config.build args) with
  | .error what => do
    let _ ← writeStatus .fail ("internal error: " ++ what)
    return false
  | .ok handlerOk => afterCommand handlerOk

/-- One turn of the loop: whether there is another. -/
def executeCommand (config : SessionConfig) : DeviceM Bool := do
  match ← readCommand with
  | .failed _ => return false
  | .got [] => return false
  | .got bytes =>
    match config.parse bytes with
    | .controlCharacter => do
      let _ ← writeStatus .fail "Command contains control character"
      return true
    | .unrecognized args => do
      let _ ← writeStatus .fail ("Unrecognized command " ++ (← arg args 0))
      return true
    | .command handler args => dispatch config handler args

/-- `ExecuteCommands`, for a number of turns. -/
def executeCommands (config : SessionConfig) : ℕ → DeviceM Unit
  | 0 => Prog.stop .outOfFuel
  | n + 1 => do
    if (← executeCommand config) = true then executeCommands config n else return

end FastbootDevice

end RpiFastbootd
