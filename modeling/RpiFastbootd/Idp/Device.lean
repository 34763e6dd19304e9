import RpiFastbootd.Idp.Capacity
import RpiFastbootd.Idp.Storage
import RpiFastbootd.Lib.Steps

/-!
# The provisioning device

`IDPdevice` takes a description, checks that it can be provisioned, and has `IDPdeviceWriter` write
it to the disk: the partition table, the LUKS containers and the tables inside them.  What the
writer asks of partition tables, cryptsetup and udev is a `Step`, and an environment decides which
steps succeed.
-/

namespace RpiFastbootd

/-! ### The writer -/

structure PartitionAttributes where
  sizeBytes : ℕ
  typeId : String
  partlabel : Option String := none
  partuuid : Option String := none
  deriving DecidableEq, Repr

/-- The partition table of the disk, or the one inside the container at a position. -/
inductive Table
  | disk
  | container (i : ℕ)
  deriving DecidableEq, Repr

/-- What the writer asks for, about the disk or the partition at position `i`. -/
inductive Step
  | openDevice (t : Table) (dev : String) (grainKiB : ℕ)
  | createPartitionTable (t : Table) (type : String) (id : Option String)
  | appendPartition (t : Table) (i : ℕ) (attrs : PartitionAttributes)
  | commit (t : Table)
  | rereadPartitionTable (dev : String)
  | luksCreate (i : ℕ) (dev : String)
  | luksOpen (i : ℕ) (dev : String)
  | kpartx (i : ℕ) (dev : String)
  | waitUdevBlockDev (i : ℕ) (dev : String)
  | blockDevReady (i : ℕ) (dev : String)
  deriving DecidableEq, Repr

structure WriterState where
  partitions : List IDPpartition
  reason : String := ""

abbrev WriterM := StepM Step WriterState

def failWith (reason : String) : WriterM Bool := do
  update fun st => { st with reason }
  return false

/-- The table attributes of a partition of this size; `none` when it has no type code, or its size
cannot be computed. -/
def tableAttributes (storage : IDPstorage) (part : IDPpartition) (size : Option ℕ) :
    Option PartitionAttributes := do
  let typeId ← part.typecode
  let sizeBytes ← if part.expandToFit then some 0 else size
  match storage.ptableType with
  | .gpt => return { sizeBytes, typeId, partlabel := part.gptlabel, partuuid := part.gptuuid }
  | .dos => return { sizeBytes, typeId }

def IDPptableType.text : IDPptableType → String
  | .dos => "DOS"
  | .gpt => "GPT"

/-- The child is one of the encrypted children of the container `part`. -/
def childOf (all : List IDPpartition) (part child : IDPpartition) : Bool :=
  child.parentIndex == part.index && child.isEncrypted all

section

variable (env : Step → Bool) (image : IDPimage) (all : List IDPpartition)

/-- Wait for the block device of the partition at position `i` and attach it. -/
def setPartBlockDev (i : ℕ) (dev : String) : WriterM Bool := do
  if dev = "" then return false
  else if ← perform env (.waitUdevBlockDev i dev) then
    if ← perform env (.blockDevReady i dev) then
      update fun st => { st with partitions := st.partitions.modify i (·.setBlockDev dev) }
      return true
    else return false
  else return false

/-- The body of the loop over the root partitions. -/
def appendRoot (x : IDPpartition × ℕ) : WriterM Bool := do
  let (part, i) := x
  if part.parentIndex = -1 then
    let attrs ← require (tableAttributes image.deviceStorage part (part.getSize true all))
    if ← perform env (.appendPartition .disk i attrs) then return true
    else failWith ("parted: failed to create partition p" ++ toString part.num ++ " (" ++
      toString attrs.sizeBytes ++ " bytes) on " ++ image.deviceStorage.blockDev none)
  else return true

/-- The loops of the writer read nothing of a partition that they change, so `all` is the list as
it was at the start. -/
def writePhysicalPartitions : WriterM Bool := do
  let storage := image.deviceStorage
  let dev := storage.blockDev none
  let type := storage.ptableType.text
  if ← perform env (.openDevice .disk dev (storage.ptableAlign / 1024)) then
    if ← perform env (.createPartitionTable .disk type (storage.ptableId.filter (· ≠ ""))) then
      if ← all.zipIdx.allM (appendRoot env image all) then
        if ← perform env (.commit .disk) then return true
        else failWith ("parted: failed to commit partition table on " ++ dev)
      else return false
    else failWith ("parted: failed to create " ++ type ++ " partition table on " ++ dev)
  else failWith ("parted: unable to open " ++ dev)

def probeRoot (x : IDPpartition × ℕ) : WriterM Bool := do
  let (part, i) := x
  if part.parentIndex = -1 then
    let dev := image.deviceStorage.blockDev (some part.num)
    if ← setPartBlockDev env i dev then return true
    else failWith ("block device not found: " ++ dev)
  else return true

def initPhysicalPartitions : WriterM Bool := do
  let dev := image.deviceStorage.blockDev none
  if ← writePhysicalPartitions env image all then
    if ← perform env (.rereadPartitionTable dev) then all.zipIdx.allM (probeRoot env image)
    else failWith ("timed out re-reading partition table on " ++ dev)
  else return false

/-- The body of the loop over the children of a container. -/
def appendChild (part : IDPpartition) (i : ℕ) (luks : IDPluks) (x : IDPpartition × ℕ) :
    WriterM Bool := do
  let (child, k) := x
  if childOf all part child then
    let attrs ← require (tableAttributes image.deviceStorage child (child.getSize false all))
    if ← perform env (.appendPartition (.container i) k attrs) then return true
    else failWith ("parted: failed to create LUKS partition p" ++ toString child.num ++ " on " ++
      luks.blockDev (some 0))
  else return true

/-- The table inside a partitioned container. Only a table that cannot be opened or created leaves
the loop over the containers: the `ret` of this block is not the one the loop looks at. -/
def partitionContainer (part : IDPpartition) (i : ℕ) (luks : IDPluks) : WriterM Bool := do
  let luksdev := luks.blockDev (some 0)
  if ← perform env (.openDevice (.container i) luksdev (image.deviceStorage.ptableAlign / 1024)) then
    if ← perform env (.createPartitionTable (.container i) "GPT" none) then
      if ← all.zipIdx.allM (appendChild env image all part i luks) then
        let _ ← perform env (.commit (.container i))
        let _ ← perform env (.kpartx i luksdev)
        return true
      else return true
    else failWith ("parted: failed to create GPT on LUKS device " ++ luksdev)
  else failWith ("parted: unable to open LUKS device " ++ luksdev)

def probeChild (part : IDPpartition) (luks : IDPluks) (x : IDPpartition × ℕ) : WriterM Bool := do
  let (child, k) := x
  if childOf all part child then
    let dev := luks.blockDev (some child.num)
    if ← setPartBlockDev env k dev then return true
    else failWith ("LUKS child block device not found: " ++ dev)
  else return true

/-- The children of an open container: `none` goes on to the next partition, `some ret` leaves the
loop over the containers with that `ret`. -/
def initChildren (part : IDPpartition) (i : ℕ) (luks : IDPluks) : WriterM (Option Bool) := do
  if ← (if luks.etype = .partitioned then partitionContainer env image all part i luks
      else return true) then
    if ← all.zipIdx.allM (probeChild env all part luks) then return none
    else return some false
  else return some true

def initContainer (part : IDPpartition) (i : ℕ) (luks : IDPluks) : WriterM (Option Bool) := do
  let cdev := image.deviceStorage.blockDev (some part.num)
  if ← perform env (.luksCreate i cdev) then
    if ← perform env (.luksOpen i cdev) then
      if part.hasChildren all then initChildren env image all part i luks
      else return none
    else return some (← failWith ("LUKS open failed on " ++ cdev))
  else return some (← failWith ("LUKS create failed on " ++ cdev))

def initCryptLoop : List (IDPpartition × ℕ) → WriterM Bool
  | [] => return true
  | (part, i) :: rest =>
    match part.luks with
    | none => initCryptLoop rest
    | some luks => do
      match ← initContainer env image all part i luks with
      | none => initCryptLoop rest
      | some ret => return ret

def initCryptPartitions : WriterM Bool := initCryptLoop env image all all.zipIdx

def prepareStorage : WriterM Bool := do
  if ← initPhysicalPartitions env image all then initCryptPartitions env image all
  else return false

end

/-! ### The device -/

inductive IDPstate
  | init
  | config
  | ready
  | writing
  | partitioned
  | complete
  | error
  deriving DecidableEq, Repr

/-- The value of the enumerator. -/
def IDPstate.toNat : IDPstate → ℕ
  | .init => 0
  | .config => 1
  | .ready => 2
  | .writing => 3
  | .partitioned => 4
  | .complete => 5
  | .error => 6

/-- A device has a random session id; `dcap` and `isize` are not initialised. -/
structure IDPdevice where
  parser : IDPparser := {}
  partitions : List IDPpartition := []
  image : IDPimage := {}
  state : IDPstate := .init
  sessionId : ℕ
  dcap : ℕ
  isize : ℕ

/-- What the checks of `canProvision` see of the machine. -/
structure Machine where
  /-- The first line of the device tree's model, if it can be opened. -/
  model : Option String
  node : String → Bool
  file : String → Option String
  waitBlockDev : String → Bool
  rereadPartitionTable : String → Bool
  waitUdevBlockDev : String → Bool
  firmwareCrypto : Bool

def familyModels (deviceClass : String) : List String :=
  if deviceClass = "pi5" ∨ deviceClass = "cm5" then
    ["Raspberry Pi 5", "Raspberry Pi Compute Module 5"]
  else if deviceClass = "pi4" ∨ deviceClass = "cm4" then
    ["Raspberry Pi 4", "Raspberry Pi Compute Module 4", "Raspberry Pi 400"]
  else if deviceClass = "zero2w" then ["Raspberry Pi Zero 2"]
  else []

/-- `actual` contains `part`, letter case aside. -/
def containsNoCase (actual part : String) : Bool :=
  (actual.toList.map Char.toLower).tails.any (part.toList.map Char.toLower).isPrefixOf

def checkDeviceClass (model : Option String) (expectedClass : String) : Bool :=
  match model with
  | none => false
  | some actual =>
    match familyModels expectedClass with
    | [] => containsNoCase actual expectedClass
    | models => models.any (containsNoCase actual)

structure IDPcookie where
  index : ℕ := 0
  sessionId : ℕ := 0

structure IDPblockDevice where
  blockDev : String
  simg : String
  deriving DecidableEq, Repr

/-- How `startProvision` ends, with the steps it has performed. -/
structure Provision where
  ok : Bool
  reason : String
  device : IDPdevice
  log : List Step

namespace IDPdevice

/-- `Initialise`: a refusal carries the reason, an exception is the caller's to catch. -/
def initialise (d : IDPdevice) (reader : String → Except String Json.Doc) (text : String) :
    Except LoadError Unit × IDPdevice :=
  if d.state = .writing then (refuse "device is already writing", d)
  else if text = "" then (refuse "no description staged", d)
  else match d.parser.loadJSON reader text with
    | (.error e, parser) => (.error e, { d with parser })
    | (.ok (), parser) =>
      let d := { d with parser }
      match parser.getImage with
      | none => (refuse "description parsed but carries no image definition", d)
      | some image =>
        let d := { d with image, partitions := parser.partitions }
        if d.partitions = [] then (refuse "description defines no partitions to provision", d)
        else (.ok (), { d with state := .config })

def validateDeviceReadiness (d : IDPdevice) (m : Machine) : Bool :=
  let dev := d.image.deviceStorage.blockDev none
  m.waitBlockDev dev && m.rereadPartitionTable dev && m.waitUdevBlockDev dev

def validateProvisioningIntent (d : IDPdevice) (m : Machine) : Bool :=
  d.partitions.all fun part =>
    !(part.parentIndex == -1 && part.isCryptContainer) || m.firmwareCrypto

/-- The capacity and the size that `validateDeviceStorage` leaves in the device. -/
def measureStorage (d : IDPdevice) (capacity : Option ℕ) : Option IDPdevice :=
  match capacity with
  | none => some d
  | some dcap => do return { d with dcap, isize := ← computeImageStorageSize d.image d.partitions }

/-- `canProvision`; `none` when the process dies in the size computation. -/
def canProvision (d : IDPdevice) (m : Machine) : Option (Except String Unit × IDPdevice) :=
  if d.state ≠ .config then some (.error "not in config state", d)
  else if !checkDeviceClass m.model d.image.deviceClass then
    some (.error ("device class mismatch (expected " ++ d.image.deviceClass ++ ")"), d)
  else if !d.validateDeviceReadiness m then
    some (.error ("storage device not ready (" ++ d.image.deviceStorage.blockDev none ++ ")"), d)
  else do
    let capacity := d.image.deviceStorage.capacityBytes m.node m.file
    let fits ← validateDeviceStorage d.image d.partitions capacity
    let d ← d.measureStorage capacity
    if !fits then
      return (.error ("insufficient storage (need " ++ toString d.isize ++ ", have " ++
        toString d.dcap ++ ")"), d)
    else if !d.validateProvisioningIntent m then
      return (.error "firmware crypto unavailable (required for encrypted provisioning)", d)
    else return (.ok (), { d with state := .ready })

/-- `startProvision`; `none` when the process dies in the writer. -/
def startProvision (d : IDPdevice) (env : Step → Bool) (reason : String) : Option Provision :=
  if d.state ≠ .ready then
    some ⟨false, "not in ready state (current: " ++ toString d.state.toNat ++ ")", d, []⟩
  else do
    let (ok, j) ← prepareStorage env d.image d.partitions ⟨⟨d.partitions, reason⟩, []⟩
    let state := if ok then .partitioned else .error
    return ⟨ok, j.state.reason, { d with partitions := j.state.partitions, state }, j.log⟩

/-- Closing the containers detaches their devices and those of their children; whether cryptsetup
succeeds is not looked at. -/
def closeCryptPartitions (partitions : List IDPpartition) : List IDPpartition :=
  partitions.map fun p =>
    if p.isCryptContainer || partitions.any fun c => c.isCryptContainer && childOf partitions c p
    then p.setBlockDev ""
    else p

/-- `endProvision`: finalising the storage always succeeds. -/
def endProvision (d : IDPdevice) : Bool × IDPdevice :=
  (true, { d with partitions := closeCryptPartitions d.partitions, state := .complete })

def createCookie (d : IDPdevice) : IDPcookie := { sessionId := d.sessionId }

/-- The loop of `getNextBlockDevice` over the partitions from position `n` on. -/
def nextBlockDevice : List IDPpartition → ℕ → Option IDPblockDevice × ℕ
  | [], n => (none, n)
  | part :: rest, n =>
    if part.isCryptContainer then nextBlockDevice rest (n + 1)
    else match part.simg with
      | none => (none, n + 1)
      | some simg =>
        if part.getBlockDev = "" then (none, n + 1) else (some ⟨part.getBlockDev, simg⟩, n + 1)

def getNextBlockDevice (d : IDPdevice) (cookie : IDPcookie) : Option IDPblockDevice × IDPcookie :=
  if cookie.sessionId ≠ d.sessionId ∨ d.state ≠ .partitioned then (none, cookie)
  else
    let (dev, index) := nextBlockDevice (d.partitions.drop cookie.index) cookie.index
    (dev, { cookie with index })

end IDPdevice

end RpiFastbootd
