import RpiFastbootd.Lib.Scan
import RpiFastbootd.Fastboot.Device

/-!
# The `oem` commands

The handlers behind `oem`, each with the fields of its command line.  Components that have a model
of their own (block maps, provisioning, the OTP memory) are asked for the state in which the handler
finds them; their models give the replies.
-/

namespace RpiFastbootd

/-- What the daemon was built with. -/
structure Build where
  enableFetch : Bool
  libcryptsetup : Bool
  libgpiod : Bool

def maxUint64 : ℕ := 2 ^ 64 - 1

namespace FastbootDevice

/-- A field of the command line. -/
def field (args : List String) (i : ℕ) : String := args.getD i ""

/-- `args[i]`. -/
def arg (args : List String) (i : ℕ) : DeviceM String :=
  match args[i]? with
  | some word => pure word
  | none => Prog.stop .outOfRange

/-- `args[i]`, where the number of arguments says that it is there. -/
def argIf (c : Prop) [Decidable c] (args : List String) (i : ℕ) : DeviceM (Option String) :=
  if c then some <$> arg args i else pure none

theorem arg_of_lt {args : List String} {i : ℕ} (h : i < args.length) :
    arg args i = pure (field args i) := by
  unfold arg field
  rw [List.getD_eq_getElem?_getD, List.getElem?_eq_getElem h]
  rfl

theorem arg_of_le {args : List String} {i : ℕ} (h : args.length ≤ i) :
    arg args i = Prog.stop .outOfRange := by
  unfold arg
  rw [List.getElem?_eq_none h]

/-! ### Partition tables -/

def partinitUsage : String := "e.g:\r\n\toem partinit mmcblk0 <label> [id]"

def oemCmdPartinit (args : List String) : DeviceM Bool := do
  if args.length < 4 then
    writeFail "Invalid argument count. Wanted oem partinit mmcblk0 <label> [id]"
  else
    let targetDevice ← arg args 2
    let diskLabel ← arg args 3
    if (← ask (.openDevice ("/dev/" ++ targetDevice))) = false then
      writeFail ("Incorrect block device. " ++ partinitUsage)
    else
      let labelId ← argIf (args.length = 5) args 4
      if (← ask (.createPartitionTable diskLabel labelId)) = false then
        writeFail ("Failed to create disk label." ++ partinitUsage)
      else if (← ask .commitAndReread) = false then writeFail ("Error writing PT." ++ partinitUsage)
      else writeOkay "Initialised partition successfully"

def mapCode (c : String) : String :=
  if c = "L" ∨ c = "linux" then "0fc63daf-8483-4772-8e79-3d69d8477de4"
  else if c = "S" ∨ c = "swap" then "0657fd6d-a4ab-43c4-84e5-0933c84b4f4f"
  else if c = "H" ∨ c = "home" then "933ac7e1-2eb4-4f13-b844-0e14e2aef915"
  else if c = "U" ∨ c = "esp" ∨ c = "uefi" then "c12a7328-f81f-11d2-ba4b-00a0c93ec93b"
  else if c = "R" ∨ c = "raid" then "a19d880f-05fc-4d3b-a006-743f0f84911e"
  else if c = "V" ∨ c = "lvm" then "e6d6d379-f507-44c2-a23c-238f2a3df928"
  else if c = "F" ∨ c = "fat32" then "ebd0a0a2-b9e5-4433-87c0-68b6b72699c7"
  else c

def partappUsage : String := "e.g:\r\n\toem partapp mmcblk0 <part code> <size>"

def oemCmdPartapp (args : List String) : DeviceM Bool := do
  if args.length < 4 then writeFail ("Invalid argument count. " ++ partappUsage)
  else
    let blockDevice ← arg args 2
    let partitionType := mapCode (← arg args 3)
    if (← ask (.openDevice ("/dev/" ++ blockDevice))) = false then
      writeFail ("Incorrect block device. " ++ partappUsage)
    else
      match (← argIf (args.length = 5) args 4).elim (some 0) (parseUint maxUint64) with
      | none => writeFail ("Unable to parse partition size. " ++ partappUsage)
      | some sizeBytes =>
        if (← ask (.appendPartition partitionType sizeBytes)) = false then
          writeFail ("Failed to append partition. " ++ partappUsage)
        else if (← ask .commitAndReread) = false then
          writeFail ("Error writing PT." ++ partappUsage)
        else writeOkay "Wrote new partition."

/-! ### Provisioning -/

/-- The staged buffer as text. -/
def text (bytes : List Byte) : String := String.ofList (bytes.map fun b => Char.ofNat b.toNat)

/-- The reply of a component, or the end of the process. -/
def replyOrDie : Option (Response × IdpSession) → DeviceM Bool
  | some (reply, _) => writeStatus reply.result reply.message
  | none => Prog.stop .undefined

def oemCmdIdpInit : DeviceM Bool := do
  let data := text (← Prog.state).downloadData
  let (s, reader, m, fresh) ← ask (.idpInit data)
  replyOrDie (s.oemCmdIdpInit data reader m fresh)

def oemCmdIdpWrite : DeviceM Bool := do
  let (s, env) ← ask .idpWrite
  replyOrDie (s.oemCmdIdpWrite env)

def oemCmdIdpGetblk : DeviceM Bool := do
  writeReplies (← ask .idpSession).oemCmdIdpGetblk.1

def oemCmdIdpDone : DeviceM Bool := do
  writeReplies [(← ask .idpSession).oemCmdIdpDone.1]

/-! ### Encrypted volumes -/

/-- The key for a volume; the empty text where there is none. -/
def generateLuksKeyFromPartition (blockDevice : String) : DeviceM String := do
  let deviceId ← ask (.bdiGetId blockDevice)
  if deviceId = "" then return ""
  else if (← ask .cachedProvisioningStatus) ≠ some true then return ""
  else return (← ask (.calculateHmac deviceId)).getD ""

/-- `ResolveBlockDevicePath`. -/
def resolveBlockDevicePath (path : String) : DeviceM String := do
  if hasPrefix "/" path then return path
  else
    match ← ask (.statPath ("/dev/mapper/" ++ path)) with
    | .ok _ => return "/dev/mapper/" ++ path
    | .error _ => return "/dev/" ++ path

/-- Why the mappings could not be added. -/
def addMapperPartitionMappings (mapperDev : String) : DeviceM (Option String) := do
  match ← ask (.spawn ["kpartx", "-a", mapperDev]) with
  | .failed error => return some error
  | .exited 0 => return none
  | .exited rc => return some ("kpartx exited with status " ++ toString rc)

def listMapperPartitions (mapperDev : String) : DeviceM (List String) := do
  let stem := (split '/' mapperDev).getLastD ""
  let names := (← ask .mapperNames).filter fun name =>
    name ≠ "." ∧ name ≠ ".." ∧ name ≠ stem ∧ hasPrefix stem name
  return (names.map ("/dev/mapper/" ++ ·)).mergeSort (· ≤ ·)

def afterCryptOpen (mappedName : String) : DeviceM Unit := do
  let mapperDev := "/dev/mapper/" ++ mappedName
  if (← ask (.deviceHasGpt mapperDev)) = false then return
  else
    match ← addMapperPartitionMappings mapperDev with
    | some error =>
      writeInfos ["cryptopen: GPT detected but kpartx failed: " ++ error]
    | none => do
      let _ ← writeInfo "cryptopen: partitioned LUKS container; mount an inner block device"
      writeInfos ((← listMapperPartitions mapperDev).map ("  " ++ ·))

/-- The reply to the command line tool, where the library has failed with `error`. -/
def cryptsetup (argv : List String) (error failed : String) (done : DeviceM Bool) : DeviceM Bool := do
  match ← ask (.spawn ("cryptsetup" :: argv)) with
  | .failed text => writeFail (if error = "" then text else error)
  | .exited 0 => done
  | .exited _ => writeFail failed

/-- The library first, where the daemon has it; the error of the library goes on. -/
def native (build : Build) (q : DeviceM (Except String Unit)) (done : DeviceM Bool)
    (fallback : String → DeviceM Bool) : DeviceM Bool := do
  if build.libcryptsetup = true then
    match ← q with
    | .ok () => done
    | .error error => fallback error
  else fallback ""

def oemCmdCryptinit (build : Build) (args : List String) : DeviceM Bool := do
  if args.length < 4 then
    writeFail "Insufficient arguments. Usage: oem cryptinit <block_device> <label> [cipher]"
  else if (← arg args 2) = "" then
    writeFail "Block device not specified. Usage: oem cryptinit <block_device> <label> [cipher]"
  else if (← arg args 3) = "" then
    writeFail "Label not specified. Usage: oem cryptinit <block_device> <label>"
  else
    let blockDevice := "/dev/" ++ (← arg args 2)
    let label ← arg args 3
    let key ← generateLuksKeyFromPartition blockDevice
    if key = "" then writeFail "Cannot generate LUKS key - unsupported device type"
    else if (openPartition (← ask .nodes) blockDevice).isNone then
      writeFail ("Cannot create context for device " ++ blockDevice ++ " as failed to open")
    else
      let cipher := (← argIf (5 ≤ args.length) args 4).getD "aes-xts-plain64"
      native build (ask (.cryptInitNative blockDevice label cipher key))
        (writeOkay "LUKS device formatted successfully") fun error => do
          if (← ask (.createFile "/tmp/luks_key.tmp")) = false then
            writeFail "Cannot create temporary keyfile"
          else
            cryptsetup ["--batch-mode", "luksFormat", "--cipher=" ++ cipher, "--label", label,
              "--force-password", blockDevice, "--key-file", "/tmp/luks_key.tmp"]
              error "Cryptsetup failed" (writeOkay "Cryptsetup completed.")

def oemCmdCryptopen (build : Build) (args : List String) : DeviceM Bool := do
  if args.length < 4 then
    writeFail ("Insufficient arguments provided. Usage: oem cryptopen <block_device_path> " ++
      "<mapped_name>")
  else
    let path ← resolveBlockDevicePath (← arg args 2)
    let mappedName ← arg args 3
    let key ← generateLuksKeyFromPartition path
    if key = "" then writeFail "Cannot generate LUKS key - unsupported device type"
    else if (openPartition (← ask .nodes) path).isNone then
      writeFail ("Cannot perform cryptopen for device " ++ path ++ " as failed to open.")
    else if mappedName = "" then
      writeFail ("Cannot perform cryptopen for device " ++ path ++
        " as no mapped name specified.")
    else
      native build (ask (.cryptOpenNative path mappedName key))
        (do afterCryptOpen mappedName; writeOkay "LUKS device opened successfully") fun error => do
          if (← ask (.createFile "/tmp/luks_key_open.tmp")) = false then
            writeFail "Cannot create temporary keyfile"
          else
            cryptsetup ["luksOpen", "--key-file", "/tmp/luks_key_open.tmp", path, mappedName]
              error "cryptsetup luksOpen failed."
              (do afterCryptOpen mappedName; writeOkay "cryptsetup luksOpen completed.")

def oemCmdCryptsetpassword (build : Build) (args : List String) : DeviceM Bool := do
  if args.length < 4 then writeFail "Usage: oem cryptsetpassword <block_device> <passphrase>"
  else
    let blockDevice := "/dev/" ++ (← arg args 2)
    let passphrase ← arg args 3
    let key ← generateLuksKeyFromPartition blockDevice
    if key = "" then writeFail "Cannot generate LUKS key - unsupported device type"
    else
      native build
        (ask (.cryptSetPasswordNative blockDevice key passphrase (decide (passphrase = ""))))
        (writeOkay
          (if passphrase = "" then "User passphrase removed" else "User passphrase set successfully"))
        fun _ => do
          let killSlot :=
            ["cryptsetup", "luksKillSlot", "--key-file", "/tmp/luks_hw_key.tmp", blockDevice, "1"]
          if (← ask (.createFile "/tmp/luks_hw_key.tmp")) = false then
            writeFail "Cannot create temporary hardware keyfile"
          else if passphrase = "" then
            match ← ask (.spawn killSlot) with
            | .exited 0 => writeOkay "User passphrase removed."
            | _ => writeFail "Failed to remove user passphrase"
          else if (← ask (.createFile "/tmp/luks_user_key.tmp")) = false then
            writeFail "Cannot create temporary user keyfile"
          else do
            -- the slot may be empty: the outcome is not looked at
            let _ ← ask (.spawn killSlot)
            match ← ask (.spawn ["cryptsetup", "luksAddKey", "--key-file", "/tmp/luks_hw_key.tmp",
              "--key-slot", "1", blockDevice, "/tmp/luks_user_key.tmp"]) with
            | .exited 0 => writeOkay "User passphrase set."
            | _ => writeFail "Failed to set user passphrase"

/-! ### LEDs, mounts and files -/

/-- The loop of `bulk_write` after `count` bytes, with the results of its writes: the number of
bytes written, or nothing for -1.  It does not end while the writes make no progress. -/
def bulkWrite (length : ℕ) : ℕ → List (Option ℕ) → Option (Option ℕ)
  | _, [] => none
  | _, none :: _ => some none
  | count, some n :: rest =>
    let count := count + min n (length - count)
    if count < length then bulkWrite length count rest else some (some count)

def ledUsage : String := "Usage:\r\n\toem led PWR 0"

def ledPath (led : String) : String :=
  "/sys/devices/platform/leds/leds/" ++ led ++ "/brightness"

def pathMax : ℕ := 4096

def oemCmdLed (args : List String) : DeviceM Bool := do
  if args.length < 4 then writeFail ("Incorrect arguments for LED command: " ++ ledUsage)
  else
    let led ← arg args 2
    let value ← arg args 3
    if led.length = 0 ∨ !led.toList.all (fun c => 'A' ≤ c ∧ c ≤ 'Z') ∨
        pathMax ≤ (ledPath led).length then do
      let _ ← writeInfo ("Could not find LED device: " ++ ledUsage)
      writeOkay ""
    else
      match ← ask (.openFile (ledPath led)) with
      | .error _ => do
        let _ ← writeInfo ("Could not open LED device: " ++ ledUsage)
        writeOkay ""
      | .ok () =>
        match bulkWrite value.length 0 (← ask (.writes value)) with
        | none => Prog.stop .hangs
        | some count =>
          if count = some value.length then writeOkay "Wrote LED value"
          else do
            let _ ← writeInfo "Could not wite LED value."
            writeOkay ""

def enhanceMountError (path mountpoint fstype : String) (einval : Bool) (error : String) :
    DeviceM String := do
  let message := "Mount failed for " ++ path ++ " on " ++ mountpoint ++
    (if fstype = "" then "" else " (type " ++ fstype ++ ")") ++ ": " ++ error
  if !einval ∨ !hasPrefix "/dev/mapper/" path then return message
  else if (← ask (.deviceHasGpt path)) = false then return message
  else do
    let _ ← addMapperPartitionMappings path
    let parts ← listMapperPartitions path
    return message ++ ". Device contains a partition table; mount an inner partition" ++
      (match parts with
        | [] => ""
        | part :: _ => " (e.g. " ++ part ++ ")") ++ " rather than the LUKS container."

/-- The types that are tried where none is given: the last error, unless one of them mounts. -/
def mountTypes (path mountpoint : String) : List String → Bool × String →
    DeviceM (Option (Bool × String))
  | [], error => return some error
  | fstype :: rest, _ => do
    match ← ask (.mount path mountpoint (some fstype)) with
    | none => return none
    | some error => mountTypes path mountpoint rest error

/-- The type that is given, or the usual types: the error, unless one of them mounts. -/
def mountAny (path mountpoint : String) (fstype : Option String) :
    DeviceM (Option (Bool × String)) := do
  match ← ask (.mount path mountpoint fstype) with
  | none => return none
  | some error =>
    if fstype.isSome = true then return some error
    else mountTypes path mountpoint ["vfat", "ext4"] error

def mountUsage : String :=
  "Usage: oem mount <device> <mountpoint> [fstype]\r\n" ++
    "e.g.:  oem mount mmcblk0p1 /mnt/bootfs\r\n" ++
    "       oem mount mmcblk0p1 /mnt/bootfs vfat\r\n" ++
    "       oem mount cryptroot2 /mnt/rootfs ext4"

def oemCmdMount (args : List String) : DeviceM Bool := do
  if args.length < 4 then writeFail mountUsage
  else
    let path ← resolveBlockDevicePath (← arg args 2)
    let mountpoint ← arg args 3
    match ← ask (.statPath path) with
    | .error error => writeFail ("Device not found: " ++ path ++ ": " ++ error)
    | .ok (false, _) => writeFail ("Not a block device: " ++ path)
    | .ok (true, _) =>
      if (← ask (.system ("mkdir -p " ++ mountpoint))) = false then
        writeFail ("Failed to create mountpoint: " ++ mountpoint)
      else
        let fstype ← argIf (5 ≤ args.length) args 4
        match ← mountAny path mountpoint fstype with
        | none => writeOkay ("Mounted " ++ path ++ " on " ++ mountpoint)
        | some (einval, error) => do
          writeFail (← enhanceMountError path mountpoint (fstype.getD "") einval error)

def oemCmdUmount (args : List String) : DeviceM Bool := do
  if args.length < 3 then writeFail "Usage: oem umount <mountpoint>"
  else
    let mountpoint ← arg args 2
    match ← ask (.umount mountpoint) with
    | some error => writeFail ("Unmount failed for " ++ mountpoint ++ ": " ++ error)
    | none => writeOkay ("Unmounted " ++ mountpoint)

/-- `ParseMode`: up to four octal digits, at most `0777`. -/
def parseMode (s : String) : Option ℕ :=
  if 4 < s.length then none else (number 8 s.toList).filter (· ≤ 0o777)

def oemCmdDownloadFile (args : List String) : DeviceM Bool := do
  if args.length < 3 then
    writeFail "Invalid argument count. Wanted oem download-file <path-to-destination> [mode]"
  else
    let given ← argIf (4 ≤ args.length) args 3
    let mode := given.bind parseMode
    if given.isSome ∧ mode = none then
      writeFail ("Invalid mode '" ++ given.getD "" ++ "': octal, at most 0777")
    else
      let data := (← Prog.state).downloadData
      match ← ask (.writeFile (← arg args 2) data mode) with
      | .error error => writeFail error
      | .ok () => do
        Prog.update fun d => { d with downloadData := [] }
        writeOkay "Write Successful!"

/-- `vector::resize`. -/
def resize (size : ℕ) (buffer : List Byte) : List Byte :=
  buffer.take size ++ List.replicate (size - buffer.length) 0

/-- The loop of `fread` after the bytes `read`, with the bytes that its calls give: the `size` bytes
of the file.  It does not end while the calls give nothing. -/
def freadLoop (size : ℕ) : List Byte → List (List Byte) → Option (List Byte)
  | read, [] => if size ≤ read.length then some read else none
  | read, chunk :: rest =>
    if size ≤ read.length then some read
    else freadLoop size (read ++ chunk.take (size - read.length)) rest

def oemCmdUploadFile (args : List String) : DeviceM Bool := do
  if args.length < 3 then
    writeFail "Invalid argument count. Wanted [oem upload-file <path-on-client>]"
  else
    let path ← arg args 2
    match ← ask (.fopen path) with
    | .error errno => writeFail ("Error opening file, ERRNO: " ++ toString errno)
    | .ok () =>
      -- the position is cut to an `int`
      let size := (← ask (.ftell path)).bmod (2 ^ 32)
      if size = 0 then writeFail "Filesize zero. Will not upload empty file"
      else do
        ask (.allocate size)
        -- a negative size is too large for a vector
        if size < 0 then Prog.stop (.threw "vector::_M_default_append")
        else do
          Prog.update fun d => { d with downloadData := resize size.toNat d.downloadData }
          match freadLoop size.toNat [] (← ask (.freads path size.toNat)) with
          | none => Prog.stop .hangs
          | some bytes => do
            Prog.update fun d => { d with downloadData := bytes }
            writeOkay "Write Successful!"

/-- `SetGpioLinesNative`.  The arguments after the second are read one by one, to the last. -/
def setGpioLinesNative (args : List String) : DeviceM Bool := do
  if args.length < 3 then return false
  else do
    let _ ← arg args 1
    ask (.setGpioLines args)

def oemCmdGpioset (build : Build) (args : List String) : DeviceM Bool := do
  let fallback : DeviceM Bool := do
    match ← ask (.spawn (args.drop 1)) with
    | .failed error => writeFail error
    | .exited 0 => writeOkay "gpioset completed."
    | .exited _ => writeFail "gpioset failed"
  if args.length < 3 then writeFail "oem gpioset gpiochip0 [OPTIONS] <line=value>..."
  else if build.libgpiod = true then
    if (← setGpioLinesNative (args.drop 1)) = true then writeOkay "GPIO set successfully"
    else fallback
  else fallback

/-! ### dm-verity -/

/-- Another device that the slot resolves to. -/
def slotMismatch (dataDevice slot : String) : DeviceM (Option String) := do
  match ← ask (.realpath ("/dev/disk/by-slot/" ++ slot ++ "/system")) with
  | none => return none
  | some bySlot => return if (← ask (.realpath dataDevice)) = some bySlot then none else some bySlot

/-- `verity_common_preamble`: whether the lock of the slot is held; if not, the reply has been
sent. -/
def verityCommonPreamble (dataDevice slot : String) : DeviceM Bool := do
  if getDeviceLockStatus = true then do
    let _ ← writeFail "Verity setup is not allowed on locked devices"
    return false
  else if (← ask (.isValidSlot slot)) = false then do
    let _ ← writeFail ("invalid slot name (expected ^system-[a-z0-9]\x7b1,14\x7d$): " ++ slot)
    return false
  else
    match ← slotMismatch dataDevice slot with
    | some bySlot => do
      let _ ← writeFail ("SLOT_DEVICE_MISMATCH: " ++ slot ++ " resolves to " ++ bySlot ++
        " but got " ++ dataDevice)
      return false
    | none =>
      match ← ask (.mkdir "/persistent") with
      | some error => do
        let _ ← writeFail ("Failed to create /persistent: " ++ error)
        return false
      | none =>
        match ← ask (.flock slot) with
        | some error => do
          let _ ← writeFail ("FLOCK_FAILED for slot " ++ slot ++ ": " ++ error)
          return false
        | none => return true

def emitSuccess (slot : String) (rootHash : List Byte) : DeviceM Bool := do
  let _ ← writeInfo ("Root hash: " ++ hexBytes rootHash)
  let path := "/persistent/" ++ slot ++ ".verity.rhsig"
  match ← ask (.statPath path) with
  | .ok (_, size) => do
    let _ ← writeInfo ("Signed blob: " ++ path ++ " (" ++ toString size ++ " bytes)")
    writeOkay "dm-verity setup completed"
  | .error _ => writeOkay "dm-verity setup completed"

def dispatchSignFail (kind : VerityError) (rc : ℕ) (error : Option String) : DeviceM Bool :=
  let message := error.getD ("rpi_verity_sign_apply rc=" ++ toString rc)
  writeFail (match kind with
    | .cryptsetup => "VERITY_SETUP: " ++ message
    | .otpUnset => message
    | .args => message
    | .other =>
      message ++ " — partition state may be inconsistent; reprovision from scratch")

/-- `rpi_verity_sign_apply` with the reply to it. -/
def veritySign (slot dataDevice hashDevice : String) (dataSize : ℕ) : DeviceM Bool := do
  match ← ask (.veritySignApply slot dataDevice hashDevice dataSize) with
  | .signed rootHash => emitSuccess slot rootHash
  | .failed kind rc error => dispatchSignFail kind rc error

def noCryptsetup : String :=
  "verity signing requires libcryptsetup build; rebuild without --no-cryptsetup"

def oemCmdVeritysetup (build : Build) (args : List String) : DeviceM Bool := do
  if build.libcryptsetup = false then writeFail noCryptsetup
  else if args.length < 4 then writeFail "Usage: oem veritysetup <device_name> <slot>"
  else
    let deviceName ← arg args 2
    let slot ← arg args 3
    let dataDevice := "/dev/" ++ deviceName
    if (openPartition (← ask .nodes) dataDevice).isNone then
      writeFail ("Cannot open device " ++ dataDevice)
    else if (← verityCommonPreamble dataDevice slot) = false then return false
    else do
      ask (.acquire dataDevice)
      veritySign slot dataDevice ("/persistent/" ++ deviceName ++ ".verity") 0

def oemCmdVerityappend (build : Build) (args : List String) : DeviceM Bool := do
  if build.libcryptsetup = false then writeFail noCryptsetup
  else if args.length < 5 then
    writeFail "Usage: oem verityappend <device_name> <data_size_bytes> <slot>"
  else
    let dataDevice := "/dev/" ++ (← arg args 2)
    let size ← arg args 3
    match parseUint maxUint64 size with
    | none => writeFail ("Invalid data size: " ++ size)
    | some dataSize =>
      let slot ← arg args 4
      if (openPartition (← ask .nodes) dataDevice).isNone then
        writeFail ("Cannot open device " ++ dataDevice)
      else
        -- the handle is not open
        let deviceSize := (Android.getBlockDeviceSize (← ask .blockWorld) none).1
        if deviceSize = 0 then writeFail "Cannot get device size"
        else if deviceSize < dataSize then writeFail "Data size exceeds device size"
        else if (← verityCommonPreamble dataDevice slot) = false then return false
        else do
          ask (.acquire dataDevice)
          veritySign slot dataDevice dataDevice dataSize

/-! ### Block maps, keys and the boot EEPROM -/

/-- The component reads the name of the device if there is one. -/
def oemCmdBmapLoad (args : List String) : DeviceM Bool := do
  let _ ← argIf (3 ≤ args.length) args 2
  let s ← ask .bmapState
  writeReplies [(RpiFastbootd.oemCmdBmapLoad s args (← Prog.state).downloadData).1]

def oemCmdBmapVerify (args : List String) : DeviceM Bool := do
  let _ ← argIf (3 ≤ args.length) args 2
  let (s, io) ← ask .bmapVerify
  writeReplies (RpiFastbootd.oemCmdBmapVerify (← ask .sha256) io s args)

/-- The 32 bytes that 64 characters write, two characters a byte. -/
def decodeDigest (digest : List Char) : Option (List Byte) :=
  (List.range 32).mapM fun i => (scanHex2 (digest.drop (2 * i))).map (BitVec.ofNat 8)

def oemCmdFwcrypto (args : List String) : DeviceM Bool := do
  if args.length < 3 then writeFail "Usage: oem fwcrypto <status|init|sign-hash>"
  else
    let subcommand ← arg args 2
    if subcommand = "status" then
      match ← ask .cachedProvisioningStatus with
      | none => writeFail "Failed to get key status"
      | some true => writeOkay "Key is provisioned"
      | some false => writeOkay "Key is not provisioned"
    else if subcommand = "init" then
      if (← ask .cachedProvisioningStatus) = some true then writeOkay "Key already provisioned"
      else
        match ← ask .provisionKey with
        | .error (true, _) => writeOkay "Key already provisioned"
        | .error (false, error) => writeFail ("Failed to provision key: " ++ error)
        | .ok () =>
          if (← ask .lockKey) = true then writeOkay "Key provisioned and LOCKed"
          else
            writeFail ("Key provisioned but LOCK failed — refusing to report success; " ++
              "reboot and retry")
    else if subcommand = "sign-hash" then
      if args.length < 4 then writeFail "Usage: oem fwcrypto sign-hash <64-char-hex-sha256-digest>"
      else
        let hexDigest ← arg args 3
        if hexDigest.length ≠ 64 then
          writeFail "Digest must be exactly 64 hex characters (SHA-256)"
        else
          match decodeDigest hexDigest.toList with
          | none => writeFail "Invalid hex character in digest"
          | some hash =>
            match ← ask (.ecdsaSign hash) with
            | .error error => writeFail ("ECDSA sign failed: " ++ error)
            | .ok signature => do
              let _ ← writeInfo ("connect-signature:" ++ signature)
              writeOkay ""
    else writeFail "Unknown fwcrypto subcommand. Use 'status', 'init', or 'sign-hash'"

def eepromResolveSpidev (args : List String) : DeviceM String := do
  let given := (← argIf (3 ≤ args.length) args 2).getD ""
  if given ≠ "" then return given else ask .detectSpiDev

def oemCmdEepromUpdate (args : List String) : DeviceM Bool := do
  let spidev ← eepromResolveSpidev args
  let image := (← Prog.state).downloadData
  if spidev = "" then
    writeFail ("eeprom-update: no SPI device found; pass explicitly: " ++
      "oem eeprom-update /dev/spidevN.0")
  else if image = [] then
    writeFail "eeprom-update: no image staged; download signed image first"
  else
    match ← ask (.eepromWrite spidev image) with
    | .error error => writeFail ("eeprom-update: " ++ error)
    | .ok () =>
      writeOkay ("eeprom-update: " ++ spidev ++ " written (" ++ toString image.length ++ " bytes)")

def oemCmdEepromVerify (args : List String) : DeviceM Bool := do
  let spidev ← eepromResolveSpidev args
  let expected := (← Prog.state).downloadData
  if spidev = "" then writeFail "eeprom-verify: no SPI device found"
  else if expected = [] then
    writeFail "eeprom-verify: no image staged; download expected image first"
  else
    match ← ask (.eepromVerify spidev expected) with
    | .error error => writeFail ("eeprom-verify: " ++ error)
    | .ok () => writeOkay "eeprom-verify: match"

def oemCmdEepromRead (args : List String) : DeviceM Bool := do
  let spidev ← eepromResolveSpidev args
  if spidev = "" then writeFail "eeprom-read: no SPI device found"
  else
    let sha256 ← ask .sha256
    match ← ask (.eepromRead spidev) with
    | .error error => writeFail ("eeprom-read: " ++ error)
    | .ok image => do
      Prog.update fun d => { d with downloadData := image }
      let _ ← writeInfo ("eeprom-read: sha256=" ++ hexBytes (sha256 image))
      writeOkay ("eeprom-read: " ++ toString image.length ++ " bytes staged for upload")

/-! ### The OTP memory -/

def macUsage : String :=
  "Usage:\r\n\toem mac get <ethernet|wifi|bluetooth>\r\n\toem mac check <aa:bb:cc:dd:ee:ff>\r\n" ++
    "\toem mac set <ethernet|wifi|bluetooth> <aa:bb:cc:dd:ee:ff>"

def parseMacInterface (name : String) : Option MacInterface :=
  if name = "ethernet" ∨ name = "eth" then some .ethernet
  else if name = "wifi" ∨ name = "wlan" then some .wifi
  else if name = "bluetooth" ∨ name = "bt" then some .bluetooth
  else none

def parseMac (s : String) : Except String Mac :=
  let c : ℕ → Char := fun i => s.toList.getD i '\x00'
  if s.length ≠ 17 then
    .error ("'" ++ s ++ "' is not a MAC address; wanted aa:bb:cc:dd:ee:ff")
  else if c 2 ≠ ':' ∧ c 2 ≠ '-' then .error ("'" ++ s ++ "' is not separated by ':' or '-'")
  else do
    let octets ← (List.range 6).mapM fun i =>
      if 0 < i ∧ c (3 * i - 1) ≠ c 2 then
        .error ("'" ++ s ++ "' has inconsistent separators")
      else
        match digitValue 16 (c (3 * i)), digitValue 16 (c (3 * i + 1)) with
        | some high, some low => .ok (BitVec.ofNat 8 (high * 16 + low))
        | _, _ => .error ("'" ++ s ++ "' has a non-hexadecimal octet")
    return Vector.ofFn fun i => octets.getD i 0

def oemCmdMac (args : List String) : DeviceM Bool := do
  if args.length < 4 then writeFail ("Insufficient arguments. " ++ macUsage)
  else
    let subcommand ← arg args 2
    if subcommand = "get" then
      let name ← arg args 3
      match parseMacInterface name with
      | none => writeFail ("mac get: unknown interface '" ++ name ++ "'. " ++ macUsage)
      | some iface =>
        let (env, s) ← ask .otp
        match (getCustomerMac env iface s).1 with
        | .error failure => writeFail ("mac get: " ++ failure.err)
        | .ok mac =>
          if macIsBlank mac = true then writeOkay "mac get: not programmed"
          else if macIsIgnored mac = true then
            writeOkay "mac get: ff:ff:ff:ff:ff:ff, ignored by the bootloader"
          else writeOkay ("mac get: " ++ formatMac mac)
    else if subcommand = "check" then
      match parseMac (← arg args 3) with
      | .error error => writeFail ("mac check: " ++ error)
      | .ok mac =>
        match validateMac mac with
        | .error failure => writeFail ("mac check: " ++ failure.err)
        | .ok () =>
          writeOkay ("mac check: " ++ formatMac mac ++ " is a writable address (words " ++
            join " " ((macToWords mac).map hex32) ++ ")")
    else if subcommand = "set" then
      if args.length < 5 then writeFail ("Insufficient arguments. " ++ macUsage)
      else
        let name ← arg args 3
        match parseMacInterface name with
        | none => writeFail ("mac set: unknown interface '" ++ name ++ "'. " ++ macUsage)
        | some iface =>
          match parseMac (← arg args 4) with
          | .error error => writeFail ("mac set: " ++ error)
          | .ok mac =>
            let (env, s) ← ask .otp
            let subject := "mac set: customer " ++ macInterfaceName iface ++ " MAC " ++ formatMac mac
            match (setCustomerMac env iface mac s).1 with
            | .error failure => writeFail ("mac set: " ++ failure.err)
            | .ok .alreadyMatches => writeOkay (subject ++ " was already programmed")
            | .ok .programmed => writeOkay (subject ++ " programmed, effective after reset")
    else writeFail ("mac: unknown subcommand '" ++ subcommand ++ "'. " ++ macUsage)

def otpUsage : String :=
  "Usage:\r\n\toem otp get <row> [count]\r\n\toem otp set <row> <word> [word...]\r\n" ++
    "Rows are indices into the eight-row customer region, not absolute OTP rows."

def maxUint32 : ℕ := 2 ^ 32 - 1

/-- The words of `oem otp set`, or the first field that is none. -/
def otpWords : List String → Except String (List Word)
  | [] => .ok []
  | word :: rest =>
    match parseUint maxUint32 word with
    | none => .error word
    | some n => do return BitVec.ofNat 32 n :: (← otpWords rest)

def oemCmdOtp (args : List String) : DeviceM Bool := do
  if args.length < 4 then writeFail ("Insufficient arguments. " ++ otpUsage)
  else
    let subcommand ← arg args 2
    if subcommand ≠ "get" ∧ subcommand ≠ "set" then
      writeFail ("otp: unknown subcommand '" ++ subcommand ++ "'. " ++ otpUsage)
    else
      let row ← arg args 3
      match parseUint maxUint32 row with
      | none => writeFail ("otp: '" ++ row ++ "' is not a row number. " ++ otpUsage)
      | some start =>
        if subcommand = "get" then
          let given ← argIf (5 ≤ args.length) args 4
          match given.elim (some 1) (parseUint maxUint32) with
          | none => writeFail ("otp get: '" ++ given.getD "" ++ "' is not a count. " ++ otpUsage)
          | some count =>
            let (env, s) ← ask .otp
            match (readCustomerOtp env (BitVec.ofNat 32 start) (BitVec.ofNat 32 count) s).1 with
            | .error failure => writeFail ("otp get: " ++ failure.err)
            | .ok rows => writeOkay ("otp get: " ++ join " " (rows.map hex32))
        else if args.length < 5 then writeFail ("Insufficient arguments. " ++ otpUsage)
        else
          match otpWords (args.drop 4) with
          | .error word =>
            writeFail ("otp set: '" ++ word ++ "' is not a 32-bit value. " ++ otpUsage)
          | .ok values =>
            let (env, s) ← ask .otp
            let rows := toString start ++ "-" ++ toString (start + values.length - 1)
            match (writeCustomerOtp env (BitVec.ofNat 32 start) values s).1 with
            | .error failure => writeFail ("otp set: " ++ failure.err)
            | .ok .alreadyMatches =>
              writeOkay ("otp set: customer rows " ++ rows ++ " already held the requested value")
            | .ok .programmed => writeOkay ("otp set: customer rows " ++ rows ++ " programmed")

/-! ### The handler -/

/-- `OemCmdHandler`.  The name is the second field of the command line; a line without a space has
none, and the field is taken all the same. -/
def oemCmdHandler (build : Build) (args : List String) : DeviceM Bool := do
  let splitArgs := split ' ' (← arg args 0)
  match ← arg splitArgs 1 with
  | "led" => oemCmdLed splitArgs
  | "cryptinit" => oemCmdCryptinit build splitArgs
  | "cryptopen" => oemCmdCryptopen build splitArgs
  | "cryptsetpassword" => oemCmdCryptsetpassword build splitArgs
  | "partinit" => oemCmdPartinit splitArgs
  | "partapp" => oemCmdPartapp splitArgs
  | "mount" => oemCmdMount splitArgs
  | "umount" => oemCmdUmount splitArgs
  | "download-file" => oemCmdDownloadFile splitArgs
  | "upload-file" => oemCmdUploadFile splitArgs
  | "gpioset" => oemCmdGpioset build splitArgs
  | "veritysetup" => oemCmdVeritysetup build splitArgs
  | "verityappend" => oemCmdVerityappend build splitArgs
  | "idpinit" => oemCmdIdpInit
  | "idpwrite" => oemCmdIdpWrite
  | "idpgetblk" => oemCmdIdpGetblk
  | "idpdone" => oemCmdIdpDone
  | "fwcrypto" => oemCmdFwcrypto splitArgs
  | "bmap-load" => oemCmdBmapLoad splitArgs
  | "bmap-verify" => oemCmdBmapVerify splitArgs
  | "eeprom-update" => oemCmdEepromUpdate splitArgs
  | "eeprom-verify" => oemCmdEepromVerify splitArgs
  | "eeprom-read" => oemCmdEepromRead splitArgs
  | "mac" => oemCmdMac splitArgs
  | "otp" => oemCmdOtp splitArgs
  | _ => writeFail "Unknown OEM command."

end FastbootDevice

end RpiFastbootd
