import RpiFastbootd.Lib.Program
import RpiFastbootd.Fastboot.Bmap
import RpiFastbootd.Fastboot.Erase
import RpiFastbootd.Fastboot.FwCrypto
import RpiFastbootd.Fastboot.IdpCommands

/-!
# The device of a session

A `FastbootDevice` serves one session over a transport.  It keeps the staged buffer, whether the
current command has been answered, and whether the transport has failed.  Its handlers are programs
over these: they read and write on the transport and ask the system around them, which may answer
anything, or throw.

Characters of commands and messages stand for bytes.
-/

namespace RpiFastbootd

/-- The fields of a `FastbootDevice` that its commands change. -/
structure FastbootDevice where
  downloadData : List Byte := []
  replied : Bool := false
  transportFailed : Bool := false

/-- What `Transport::Read` gives: the bytes it has put into the buffer, and whether it returns
their number or -1. -/
inductive Received
  | got (bytes : List Byte)
  | failed (bytes : List Byte)
  deriving DecidableEq, Repr

def Received.bytes : Received → List Byte
  | got bytes => bytes
  | failed bytes => bytes

/-- What is handed to `Transport::Write`: a response, or bytes of a data phase. -/
inductive Packet
  | status (r : Response)
  | data (bytes : List Byte)
  deriving DecidableEq, Repr

/-- The handlers of the command map. -/
inductive CommandHandler
  | setActive
  | download
  | upload
  | getVar
  | getVarDataPlane
  | shutDown
  | reboot
  | rebootBootloader
  | erase
  | flash
  | oem
  | fetch
  deriving DecidableEq, Repr

/-- The outcome of `process_spawn_blocking`. -/
inductive Spawned
  | failed (error : String)
  | exited (rc : ℕ)

/-- The errors of `rpi_verity_sign_apply` that are told apart. -/
inductive VerityError
  | cryptsetup
  | otpUnset
  | args
  | other

inductive VerityOutcome
  | signed (rootHash : List Byte)
  | failed (kind : VerityError) (rc : ℕ) (error : Option String)

/-- A question to the system around the daemon: a call of the C library, of another library, or of
a component that has a model of its own and is asked for the state a handler finds it in. -/
inductive Query
  | getVariable (name : String) (args : List String)
  | allArgs (name : String)
  | klogctl
  | spawn (argv : List String)
  | readFile (path : String)
  | readLines (path : String)
  | extCsd
  | blockWorld
  | openDevice (path : String)
  | createPartitionTable (label : String) (id : Option String)
  | appendPartition (typeId : String) (sizeBytes : ℕ)
  | commitAndReread
  | nodes
  | bdiGetId (blockDevice : String)
  | cachedProvisioningStatus
  | calculateHmac (message : String)
  | cryptInitNative (blockDevice label cipher key : String)
  | cryptOpenNative (blockDevice name key : String)
  | cryptSetPasswordNative (blockDevice key passphrase : String) (remove : Bool)
  | createFile (path : String)
  | deviceHasGpt (path : String)
  | mapperNames
  | statPath (path : String)
  | openFile (path : String)
  | writes (value : String)
  | system (command : String)
  | mount (device mountpoint : String) (fstype : Option String)
  | umount (mountpoint : String)
  | writeFile (path : String) (data : List Byte) (mode : Option ℕ)
  | fopen (path : String)
  | ftell (path : String)
  | freads (path : String) (size : ℕ)
  | setGpioLines (args : List String)
  | isValidSlot (slot : String)
  | realpath (path : String)
  | mkdir (path : String)
  | flock (slot : String)
  | veritySignApply (slot dataDevice hashDevice : String) (dataSize : ℕ)
  | blockDeviceSize (path : String)
  | bmapState
  | bmapVerify
  | idpInit (data : String)
  | idpWrite
  | idpSession
  | provisionKey
  | lockKey
  | ecdsaSign (hash : List Byte)
  | detectSpiDev
  | eepromWrite (spidev : String) (image : List Byte)
  | eepromVerify (spidev : String) (expected : List Byte)
  | eepromRead (spidev : String)
  | sha256
  | otp
  | isWholeDisk (path : String)
  | rereadPartitionTable (path : String)
  | allocate (size : ℤ)
  | acquire (path : String)
  | seek (path : String) (offset : ℕ)
  | readFully (path : String) (offset size : ℕ)

/-- What a query is answered by.  Errors are given by their texts, `stat` by whether the node is a
block device and the size of the file, `mount` by whether the error is `EINVAL`. -/
@[reducible]
def Query.Answer : Query → Type
  | getVariable .. => Bool × String
  | allArgs _ => List (List String)
  | klogctl => Option (List String)
  | spawn _ => Spawned
  | readFile _ => Option String
  | readLines _ => Option (List String)
  | extCsd => Except String (List Byte)
  | blockWorld => BlockWorld
  | openDevice _ => Bool
  | createPartitionTable .. => Bool
  | appendPartition .. => Bool
  | commitAndReread => Bool
  | nodes => String → Bool
  | bdiGetId _ => String
  | cachedProvisioningStatus => Option Bool
  | calculateHmac _ => Option String
  | cryptInitNative .. => Except String Unit
  | cryptOpenNative .. => Except String Unit
  | cryptSetPasswordNative .. => Except String Unit
  | createFile _ => Bool
  | deviceHasGpt _ => Bool
  | mapperNames => List String
  | statPath _ => Except String (Bool × ℕ)
  | openFile _ => Except String Unit
  | writes _ => List (Option ℕ)
  | system _ => Bool
  | mount .. => Option (Bool × String)
  | umount _ => Option String
  | writeFile .. => Except String Unit
  | fopen _ => Except ℕ Unit
  | ftell _ => ℤ
  | freads .. => List (List Byte)
  | setGpioLines _ => Bool
  | isValidSlot _ => Bool
  | realpath _ => Option String
  | mkdir _ => Option String
  | flock _ => Option String
  | veritySignApply .. => VerityOutcome
  | blockDeviceSize _ => ℕ
  | bmapState => BmapState
  | bmapVerify => BmapState × BmapIO
  | idpInit _ => IdpSession × (String → Except String Json.Doc) × Machine × IDPdevice
  | idpWrite => IdpSession × (Step → Bool)
  | idpSession => IdpSession
  | provisionKey => Except (Bool × String) Unit
  | lockKey => Bool
  | ecdsaSign _ => Except String String
  | detectSpiDev => String
  | eepromWrite .. => Except String Unit
  | eepromVerify .. => Except String Unit
  | eepromRead _ => Except String (List Byte)
  | sha256 => List Byte → List Byte
  | otp => OtpEnv × OtpState
  | isWholeDisk _ => Bool
  | rereadPartitionTable _ => Option (Bool × String)
  | allocate _ => Unit
  | acquire _ => Unit
  | seek .. => Option String
  | readFully .. => Option (List Byte)

/-- What a session does that can be seen from outside.  `dispatch` marks that a handler is entered
and has no effect. -/
inductive Call
  | readCommand
  | readData (size : ℕ)
  | write (p : Packet)
  | close
  | dispatch (handler : CommandHandler) (args : List String)
  | flashBlockDevice (path : String) (payload : List Byte) (size : ℕ)
  | fork
  | query (q : Query)

/-- A write is answered by whether the whole packet was written, the flash of a device by its
result (nothing, or an error), and a fork by whether there is a new process. -/
@[reducible]
def Call.Answer : Call → Type
  | readCommand => Received
  | readData _ => Received
  | write _ => Bool
  | close => Unit
  | dispatch .. => Unit
  | flashBlockDevice .. => Option String
  | fork => Bool
  | query q => Except String q.Answer

/-- How a handler can end without returning: an exception, an endless loop, the wait for a shutdown,
an index out of the range of an argument vector, other undefined behaviour; `outOfFuel` is no end of
the source. -/
inductive Stop
  | threw (what : String)
  | hangs
  | paused
  | outOfRange
  | undefined
  | outOfFuel
  deriving DecidableEq, Repr

abbrev DeviceM := Prog FastbootDevice Call Call.Answer Stop

/-- One call with its answer. -/
abbrev SessionEvent := (c : Call) × c.Answer

namespace FastbootDevice

/-- Ask the system; it may throw. -/
def ask (q : Query) : DeviceM q.Answer :=
  Prog.call (Call.query q) fun
    | .ok a => Prog.ret a
    | .error what => Prog.stop (.threw what)

/-- `Transport::Read` of a command. -/
def readCommand : DeviceM Received := Prog.ask Call.readCommand

/-- `Transport::Read` into a buffer. -/
def readData (size : ℕ) : DeviceM Received := Prog.ask (Call.readData size)

/-- `Transport::Write`. -/
def write (p : Packet) : DeviceM Bool := Prog.ask (Call.write p)

/-- `CloseDevice`. -/
def closeDevice : DeviceM Unit := Prog.ask Call.close

def kMaxMessageSize : ℕ := 252

/-- A message that is too long for a response is cut, and marked where a person reads it. -/
def clip (result : FastbootResult) (message : String) : String :=
  if message.length ≤ kMaxMessageSize then message
  else
    let cut := message.toList.take kMaxMessageSize
    if result = .fail ∨ result = .info then
      String.ofList (cut.take (kMaxMessageSize - 3)) ++ "..."
    else String.ofList cut

def writeStatus (result : FastbootResult) (message : String) : DeviceM Bool := do
  if (← write (.status ⟨result, clip result message⟩)) = true then do
    Prog.update fun d => { d with replied := d.replied || decide (result = .okay ∨ result = .fail) }
    return true
  else do
    Prog.update fun d => { d with transportFailed := true }
    return false

def writeOkay (message : String) : DeviceM Bool := writeStatus .okay message

def writeFail (message : String) : DeviceM Bool := writeStatus .fail message

def writeInfo (message : String) : DeviceM Bool := writeStatus .info message

/-- `WriteInfo` for each line, whether it succeeds or not. -/
def writeInfos : List String → DeviceM Unit
  | [] => return
  | line :: rest => do
    let _ ← writeInfo line
    writeInfos rest

/-- `WriteInfo` for each line, up to the first that cannot be written. -/
def writeLines : List String → DeviceM Bool
  | [] => return true
  | line :: rest => do
    if (← writeInfo line) = true then writeLines rest else return false

/-- The bytes that a read has put into a buffer, and the rest of the buffer. -/
def fill (bytes buffer : List Byte) : List Byte :=
  (bytes ++ buffer.drop bytes.length).take buffer.length

/-- `HandleData` into the staged buffer. -/
def handleDataRead : DeviceM Bool := do
  let size := (← Prog.state).downloadData.length
  let received ← readData size
  Prog.update fun d => { d with downloadData := fill received.bytes d.downloadData }
  match received with
  | .failed _ => do
    Prog.update fun d => { d with transportFailed := true }
    return false
  | .got bytes =>
    if bytes.length = size then return true
    else do
      Prog.update fun d => { d with transportFailed := true }
      return false

/-- `HandleData` of bytes to the host. -/
def handleDataWrite (bytes : List Byte) : DeviceM Bool := do
  if (← write (.data bytes)) = true then return true
  else do
    Prog.update fun d => { d with transportFailed := true }
    return false

/-! ### What a monitor sees of them -/

section

variable {γ : Type} {K : Monitor Call Call.Answer γ} {s : FastbootDevice} {g : γ}

theorem meets_ask_iff {q : Query} {Q : Except Stop q.Answer → FastbootDevice → γ → Prop} :
    Meets K (ask q) s g Q ↔
      K.safe g (.query q) ∧ (∀ a, Q (.ok a) s (K.next g (.query q) (.ok a))) ∧
        ∀ what, Q (.error (.threw what)) s (K.next g (.query q) (.error what)) := by
  refine and_congr_right fun _ => ⟨fun h => ⟨fun a => h (.ok a), fun what => h (.error what)⟩, ?_⟩
  rintro ⟨hok, herror⟩ (what | a)
  · exact herror what
  · exact hok a

theorem meets_writeStatus_iff {result : FastbootResult} {message : String}
    {Q : Except Stop Bool → FastbootDevice → γ → Prop} :
    Meets K (writeStatus result message) s g Q ↔
      let p := Call.write (.status ⟨result, clip result message⟩)
      K.safe g p ∧
        Q (.ok true) { s with replied := s.replied || decide (result = .okay ∨ result = .fail) }
          (K.next g p true) ∧
        Q (.ok false) { s with transportFailed := true } (K.next g p false) := by
  rw [writeStatus, meets_bind, write, Prog.ask]
  refine and_congr_right fun _ => ⟨fun h => ⟨h true, h false⟩, ?_⟩
  rintro ⟨htrue, hfalse⟩ (_ | _)
  · exact hfalse
  · exact htrue

theorem trace_ask {β : Type} {q : Query} {a : q.Answer} {f : q.Answer → DeviceM β}
    {t : List SessionEvent} {r : Option (Except Stop β)} :
    Trace (ask q >>= f) s (⟨.query q, .ok a⟩ :: t) r ↔ Trace (f a) s t r := by
  constructor
  · intro h
    cases h with
    | call h => exact h
  · intro h
    exact .call h

end

/-! ### Replies of components -/

/-- The replies that the model of a component gives. -/
def writeReplies : List Response → DeviceM Bool
  | [] => return true
  | [r] => writeStatus r.result r.message
  | r :: rest => do
    let _ ← writeStatus r.result r.message
    writeReplies rest

end FastbootDevice

end RpiFastbootd
