import RpiFastbootd.Fastboot.Oem

/-!
# The command handlers

The handlers of the two command maps: the one of a whole session, and the one of a TCP worker beside
a USB session, which only downloads, flashes and answers two variables.
-/

namespace RpiFastbootd

namespace FastbootDevice

/-! ### Variables -/

/-- The names of `kVariableMap`; those with `true` are asked once for each of their arguments by
`getvar:all`. -/
def kVariableMap : List (String × Bool) :=
  [("version", false), ("version-bootloader", false), ("version-fastbootd", false),
    ("product", false), ("serialno", false), ("secure", false), ("max-download-size", false),
    ("partition-size", true), ("partition-type", true), ("is-logical", true),
    ("is-userspace", false), ("cpu-abi", false), ("max-fetch-size", false), ("public-key", false),
    ("revision-manufacturer", false), ("revision-memory", false), ("sdram-size-bytes", false),
    ("revision-processor", false), ("revision-type", false), ("revision-revision", false),
    ("mmc-sector-size", false), ("mmc-sector-count", false), ("mmc-cid", false),
    ("mac-ethernet", false), ("mac-wifi", false), ("mac-bt", false),
    ("customer-mac-ethernet", false), ("customer-mac-wifi", false), ("customer-mac-bt", false),
    ("rpi-duid", false), ("secure-eeprom", false), ("secure-otp", false), ("secure-devkey", false),
    ("eeprom-device", false), ("eeprom-size", false), ("eeprom-sha256", false),
    ("eeprom-jedec", false), ("eeprom-unique-id", false), ("eeprom-spi-speed", false),
    ("bootloader-build-timestamp", false), ("private-key", false), ("ipv4-address", false),
    ("ipv4-gateway", false), ("ipv4-netmask", false), ("ipv4-dns", false), ("ipv4-dhcp", false),
    ("ipv6-address", false), ("ipv6-gateway", false), ("ipv6-netmask", false), ("ipv6-dns", false),
    ("ipv6-dhcp", false), ("block-devices", false), ("block-device-size", true),
    ("block-device-type", true), ("tcp-data-plane-only", false), ("otp-lock-status", false)]

/-- The getter of a variable.  One that takes an argument reads the first, if there is one. -/
def getVariable (name : String) (args : List String) : DeviceM (Bool × String) := do
  let _ ← argIf (args ≠ [] ∧ (name, true) ∈ kVariableMap) args 0
  ask (.getVariable name args)

/-- The line of `getvar:all` for a variable with arguments, if it has a value. -/
def writeVariable (name : String) (args : List String) : DeviceM Unit := do
  let (ok, message) ← getVariable name args
  writeInfos (if ok then [join ":" (name :: args) ++ ":" ++ message] else [])

def writeVariables (name : String) : List (List String) → DeviceM Unit
  | [] => return
  | args :: rest => do
    writeVariable name args
    writeVariables name rest

/-- `GetAllVars`. -/
def getAllVars (name : String) (hasArgs : Bool) : DeviceM Unit := do
  if hasArgs = true then writeVariables name (← ask (.allArgs name)) else writeVariable name []

/-- `GetVarAll`, over the rest of the table. -/
def getVarAll : List (String × Bool) → DeviceM Bool
  | [] => return true
  | (name, hasArgs) :: rest => do
    getAllVars name hasArgs
    getVarAll rest

/-- `ReadKernelLogNative`. -/
def readKernelLogNative : DeviceM Bool := do
  match ← ask .klogctl with
  | none => return false
  | some lines => writeLines lines

def getDmesg : DeviceM Bool := do
  if (← readKernelLogNative) = true then return true
  else
    match ← ask (.spawn ["/usr/bin/dmesg"]) with
    | .failed error => do
      let _ ← writeFail error
      return false
    | .exited 0 =>
      match ← ask (.readLines "/tmp/dmesg.log") with
      | some lines => writeLines lines
      | none => do
        let _ ← writeFail "Failed to read /tmp/dmesg.log"
        return false
    | .exited _ => do
      let _ ← writeFail "Dmesg failed"
      return false

/-- The text without the white space at its end. -/
def rstrip (s : String) : String :=
  let blank : Char → Bool := fun c => c = ' ' ∨ c = '\t' ∨ c = '\n' ∨ c = '\r'
  String.ofList (s.toList.reverse.dropWhile blank).reverse

/-- The INFO lines of the register: 32 bytes a line. -/
def extCsdLines (bytes : List Byte) : List String :=
  (List.range 16).map fun i =>
    let offset := toString (32 * i)
    "[" ++ String.ofList (List.replicate (3 - offset.length) '0') ++ offset ++ "] " ++
      hexBytes (slice bytes (32 * i) 32)

/-- `GetMmcExtCsd`: unlike the other two special variables it ends with a reply of its own. -/
def getMmcExtCsd : DeviceM Bool := do
  match ← ask (.readFile "/sys/block/mmcblk0/device/type") with
  | none => writeFail "Cannot determine card type (no /sys/block/mmcblk0/device/type)"
  | some cardType =>
    if rstrip cardType ≠ "MMC" then
      writeFail ("ext_csd not supported: card type is " ++ rstrip cardType ++
        " (requires MMC/eMMC)")
    else
      match ← ask (.readFile "/sys/block/mmcblk0/device/csd") with
      | none => writeFail "Cannot read CSD register (no /sys/block/mmcblk0/device/csd)"
      | some csd =>
        if (rstrip csd).length < 2 then
          writeFail ("CSD register too short: \"" ++ rstrip csd ++ "\"")
        else
          match scanHex2 (rstrip csd).toList with
          | none => writeFail ("Cannot parse CSD register: \"" ++ rstrip csd ++ "\"")
          | some byte0 =>
            let specVers := byte0 / 4 % 16
            if specVers ≤ 3 then
              writeFail ("ext_csd not supported: CSD spec_vers=" ++ toString specVers ++
                " (requires > 3 / MMC v4.0+)")
            else
              match ← ask (.openFile "/dev/mmcblk0") with
              | .error error => writeFail ("Cannot open /dev/mmcblk0: " ++ error)
              | .ok () =>
                match ← ask .extCsd with
                | .error error => writeFail ("MMC_SEND_EXT_CSD failed: " ++ error)
                | .ok bytes =>
                  if (← writeLines (extCsdLines bytes)) = true then writeOkay ""
                  else return false

/-- `kSpecialVars`. -/
def specialVar : String → Option (DeviceM Bool)
  | "all" => some (getVarAll kVariableMap)
  | "dmesg" => some getDmesg
  | "mmc-extcsd" => some getMmcExtCsd
  | _ => none

def getVarHandler (args : List String) : DeviceM Bool := do
  if args.length < 2 then writeFail "Missing argument"
  else
    let name ← arg args 1
    match specialVar name with
    | some get => do
      if (← get) = false then return false else writeOkay ""
    | none =>
      if name ∉ kVariableMap.map Prod.fst then writeFail "Unknown variable"
      else
        match ← getVariable name (args.drop 2) with
        | (false, message) => writeFail message
        | (true, message) => writeOkay message

def getVarHandlerDataPlane (args : List String) : DeviceM Bool := do
  if args.length < 2 then
    writeFail "data-plane connection: getvar requires a variable name"
  else
    let name ← arg args 1
    if name = "version" then
      match ← ask (.getVariable "version" []) with
      | (false, _) => writeFail "internal: GetVersion failed"
      | (true, message) => writeOkay message
    else if name = "max-download-size" then
      match ← ask (.getVariable "max-download-size" []) with
      | (false, _) => writeFail "internal: GetMaxDownloadSize failed"
      | (true, message) => writeOkay message
    else
      writeFail ("data-plane connection: getvar " ++ name ++ " not permitted")

/-! ### Data phases -/

def kMaxDownloadSizeDefault : ℕ := 0x10000000

def downloadHandler (args : List String) : DeviceM Bool := do
  if args.length < 2 then writeFail "size argument unspecified"
  else if getDeviceLockStatus = true then writeFail "Download is not allowed on locked devices"
  else
    let digits ← arg args 1
    if digits.length ≠ 8 then writeFail "Invalid size (length of size != 8)"
    else
      match parseUint kMaxDownloadSizeDefault ("0x" ++ digits) with
      | none => writeFail "Invalid size"
      | some size =>
        if size = 0 then writeFail "Invalid size (0)"
        else do
          ask (.allocate size)
          Prog.update fun d => { d with downloadData := resize size d.downloadData }
          if (← writeStatus .data (hexText 8 size)) = false then return false
          else if (← handleDataRead) = true then writeOkay ""
          else writeFail "Couldn't download data"

def uploadHandler : DeviceM Bool := do
  let data := (← Prog.state).downloadData
  let size := data.length % 2 ^ 32
  if size = 0 then writeFail "Invalid size (0)"
  else if (← writeStatus .data (hexText 8 size)) = false then return false
  else if (← handleDataWrite data) = true then do
    Prog.update fun d => { d with downloadData := [] }
    writeOkay ""
  else writeFail "Couldn't upload data"

def kMaxFetchSizeDefault : ℕ := 0x10000000

def maxOff64 : ℕ := 2 ^ 63 - 1

/-- A lower-case hexadecimal number, as `PRIx64` prints it. -/
def hex (n : ℕ) : String := "0x" ++ hexText 1 n

/-- The loop of `PartitionFetcher::Fetch`: whether all the bytes have been sent. -/
def fetchChunks (path : String) (offset remaining : ℕ) : DeviceM Bool := do
  if remaining = 0 then return true
  else
    let chunk := min (1024 * 1024) remaining
    match ← ask (.readFully path offset chunk) with
    | none => return false
    | some bytes =>
      if (← handleDataWrite (bytes.take chunk)) = true then
        fetchChunks path (offset + chunk) (remaining - chunk)
      else return false
  termination_by remaining
  decreasing_by omega

def allowedPartitions : List String := ["vendor_boot", "vendor_boot_a", "vendor_boot_b"]

/-- `PartitionFetcher::Open` and `PartitionFetcher::Fetch`. -/
def fetchHandler (build : Build) (args : List String) : DeviceM Bool := do
  if build.enableFetch = false then writeFail "Fetch is not allowed on user build"
  else if getDeviceLockStatus = true then writeFail "Fetch is not allowed on locked devices"
  else if args.length < 2 then writeFail "Missing partition arg"
  else
    let name ← arg args 1
    if name ∉ allowedPartitions then
      writeFail ("Fetch is only allowed on [" ++ join ", " allowedPartitions ++ "]")
    else
      match openPartition (← ask .nodes) name with
      | none => writeFail ("Cannot open " ++ name)
      | some handle =>
        let partitionSize := (Android.getBlockDeviceSize (← ask .blockWorld) handle.fd).1
        if partitionSize = 0 then writeOkay ("Partition " ++ name ++ " has size 0")
        else
          match (← argIf (3 ≤ args.length) args 2).elim (some 0) (parseUint maxUint64) with
          | none => writeFail "Invalid offset, must be integer"
          | some start =>
            if maxOff64 < start then writeFail ("Offset overflows: " ++ hexText 1 start)
            else if partitionSize < start then
              writeFail ("Invalid offset " ++ hex start ++ ", partition " ++ name ++ " has size " ++
                hex partitionSize)
            else
              let most := partitionSize - start
              match (← argIf (4 ≤ args.length) args 3).elim (some most) (parseUint maxUint64) with
              | none => writeFail "Invalid size, must be integer"
              | some total =>
                if total = 0 then writeOkay "Read 0 bytes"
                else if most < total then
                  writeFail ("Invalid size to read " ++ hex total ++ ", partition " ++ name ++
                    " has size " ++ hex partitionSize ++ " and fetching from offset " ++ hex start)
                else if kMaxFetchSizeDefault < total then
                  writeFail ("Cannot fetch " ++ hex partitionSize ++
                    " bytes because it exceeds maximum transport size " ++
                    hex kMaxDownloadSizeDefault)
                else
                  match ← ask (.seek handle.path start) with
                  | some error =>
                    writeFail ("On partition " ++ name ++ ", unable to lseek(" ++ hex start ++ ": " ++
                      error)
                  | none =>
                    if (← writeStatus .data (hexText 8 total)) = false then return false
                    else if (← fetchChunks handle.path start total) = false then return false
                    else
                      writeOkay ("Fetched " ++ name ++ " (offset=" ++ hex start ++ ", size=" ++
                        hex total)

/-! ### Flash -/

/-- Why the kernel would not read a table again. -/
def rereadError (path : String) (busy : Bool) (error : String) : String :=
  "wrote " ++ path ++ " but the kernel would not re-read its partition table: " ++ error ++
    if busy then " -- a partition is still open (a mount left behind, or a device-mapper node); " ++
      "unmount it and flash again"
    else ""

/-- `Flash`: why it has failed.  The buffer is moved out of the device once the partition is
open. -/
def flash (partitionName : String) : DeviceM (Option String) := do
  let path := "/dev/" ++ partitionName
  ask (.acquire path)
  match openPartition (← ask .nodes) path with
  | none =>
    return some ("cannot access partition " ++ path ++
      " (OpenPartition failed; partition may not exist)")
  | some handle =>
    match ← ask (.openFile handle.path) with
    | .error error => return some ("open(" ++ path ++ ", O_WRONLY|O_DIRECT) failed: " ++ error)
    | .ok () => do
      let data := (← Prog.state).downloadData
      Prog.update fun d => { d with downloadData := [] }
      if data = [] then
        return some ("download buffer is empty; stage data before flashing " ++ partitionName)
      else
        let size ← ask (.blockDeviceSize handle.path)
        if size < data.length then
          return some ("payload " ++ toString data.length ++ "B exceeds partition " ++ path ++
            " size " ++ toString size ++ "B")
        else
          match ← (Prog.ask (Call.flashBlockDevice handle.path data size) :
              DeviceM (Option String)) with
          | some error => return some error
          | none =>
            if (← ask (.isWholeDisk path)) = false then return none
            else
              match ← ask (.rereadPartitionTable handle.path) with
              | none => return none
              | some (busy, error) => return some (rereadError path busy error)

def flashHandler (args : List String) : DeviceM Bool := do
  if args.length < 2 then writeFail "Invalid arguments"
  else if getDeviceLockStatus = true then writeFail "Flashing is not allowed on locked devices"
  else
    match ← flash (← arg args 1) with
    | some error => writeFail error
    | none => writeOkay "Flashing succeeded"

/-! ### The rest -/

def eraseHandler (args : List String) : DeviceM Bool := do
  let _ ← argIf (2 ≤ args.length) args 1
  writeReplies [(RpiFastbootd.eraseHandler (← ask .blockWorld) args).1]

/-- There is no slot that could be active. -/
def getCurrentSlot : String := ""

def setActiveHandler (args : List String) : DeviceM Bool := do
  if args.length < 2 then writeFail "Missing slot argument"
  else if getDeviceLockStatus = true then
    writeFail "set_active command is not allowed on locked devices"
  else
    let slot ← arg args 1
    if slot.length ≠ 1 ∨ !slot.toList.all (fun c => 'a' ≤ c ∧ c ≤ 'z') then
      writeFail "Bad slot suffix"
    else if slot = getCurrentSlot then writeOkay ""
    else writeFail "Unable to set slot"

def shutDownHandler : DeviceM Bool := do
  let _ ← writeOkay "Shutting down"
  closeDevice
  Prog.stop .paused

/-- `RebootHandler` and `RebootBootloaderHandler`: the handler waits for the reboot, unless the
process that asks for it cannot be started. -/
def rebootWith (message : String) : DeviceM Bool := do
  let _ ← writeOkay message
  closeDevice
  if (← (Prog.ask Call.fork : DeviceM Bool)) = false then return false else Prog.stop .paused

def rebootHandler : DeviceM Bool := rebootWith "Rebooting"

def rebootBootloaderHandler : DeviceM Bool := rebootWith "Rebooting bootloader"

end FastbootDevice

end RpiFastbootd
