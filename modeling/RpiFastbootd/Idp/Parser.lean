import RpiFastbootd.Lib.Scan
import RpiFastbootd.Idp.Nav

/-!
# The description parser

`IDPparser::loadJSON` reads a description in stages: the checks of the image generator block, the
device and image attributes, the partition table, the provisioning map, and the partitions the
navigator visits with the images they name.  A stage returns its result or how it ends the load; a
failure also carries what has been written to the parser's members so far, since these survive it.

The JSON reader is a parameter: it turns a text into a document or reports an error.
-/

namespace RpiFastbootd

/-- `error = msg; return false`. -/
def refuse {α : Type} (msg : String) : Except LoadError α := .error (.refused msg)

/-- The result of a call whose refusal is ignored. -/
def ignoring {α : Type} (default : α) : Except LoadError α → Except LoadError α
  | .ok a => .ok a
  | .error (.refused _) => .ok default
  | .error e => .error e

/-- Replace the text of a refusal. -/
def refusingWith {α : Type} (msg : String → String) : Except LoadError α → Except LoadError α
  | .error (.refused e) => refuse (msg e)
  | x => x

/-! ### Required fields -/

namespace JCHK

/-- A member that has to be there. -/
def member (root : Json) (key : String) : Except LoadError Json := do
  if !(← raises (root.isMember key)) then refuse ("Missing required field: " ++ key)
  else raises (root.get key)

def stringValue (v : Json) (key : String) : Except LoadError String :=
  if v.isString then raises v.asString else refuse ("Not a string: " ++ key)

def nonEmpty (s key : String) : Except LoadError Unit :=
  if s = "" then refuse ("Empty string not allowed for: " ++ key) else return

def string (root : Json) (key : String) : Except LoadError String := do
  let s ← stringValue (← member root key) key
  nonEmpty s key
  return s

/-- A `size_t`; the 32-bit type tests of the source are contained in the 64-bit ones. -/
def size (root : Json) (key : String) : Except LoadError ℕ := do
  let v ← member root key
  if v.isUInt64 then return (← raises v.asUInt64).toNat
  else if v.isInt64 then
    let val ← raises v.asInt64
    if val < 0 then refuse ("Negative value for size_t: " ++ key) else return val.toNat
  else refuse ("Not an unsigned integer: " ++ key)

/-- An object or an array. -/
def tree (root : Json) (key : String) : Except LoadError Json := do
  let v ← member root key
  if !v.isObject && !v.isArray then refuse ("Not an object or array: " ++ key) else return v

def array (root : Json) (key : String) : Except LoadError Json := do
  let v ← member root key
  if !v.isArray then refuse ("Not an array: " ++ key) else return v

/-- The first entry with the nested key decides. -/
def nestedString (nestedKey targetKey : String) : List Json → Except LoadError String
  | [] => refuse ("Key '" ++ targetKey ++ "' not found in any '" ++ nestedKey ++ "' object in array")
  | entry :: entries => do
    let found ← if entry.isObject then raises (entry.isMember nestedKey) else pure false
    if found then
      let nested ← raises (entry.get nestedKey)
      if ← raises (nested.isMember targetKey) then return ← string nested targetKey
    nestedString nestedKey targetKey entries

def nestedInArray (array : Json) (nestedKey targetKey : String) : Except LoadError String :=
  if !array.isArray then refuse "Value is not an array"
  else nestedString nestedKey targetKey array.elems

end JCHK

/-- A required string that is stored before its emptiness is checked. -/
def stringInto {σ : Type} (root : Json) (key : String) (store : String → σ → σ) (st : σ) :
    Except (LoadError × σ) σ := do
  let s ← leaving st (do JCHK.stringValue (← JCHK.member root key) key)
  leaving (store s st) (JCHK.nonEmpty s key)
  return store s st

/-! ### Versions -/

structure IDPversion where
  major : ℤ
  minor : ℤ
  patch : ℤ
  deriving DecidableEq, Repr

namespace IDPversion

def ge (v other : IDPversion) : Bool :=
  if v.major ≠ other.major then decide (v.major > other.major)
  else if v.minor ≠ other.minor then decide (v.minor > other.minor)
  else decide (v.patch ≥ other.patch)

def toText (v : IDPversion) : String :=
  toString v.major ++ "." ++ toString v.minor ++ "." ++ toString v.patch

end IDPversion

structure VersionRange where
  min : IDPversion
  max : IDPversion

def VersionRange.contains (r : VersionRange) (v : IDPversion) : Bool := v.ge r.min && !v.ge r.max

/-- An `int` as the conversion stores it: read as a `long`, which saturates, and cut to 32 bits. -/
def storeInt (z : ℤ) : ℤ := (max (-2 ^ 63) (min z (2 ^ 63 - 1))).bmod (2 ^ 32)

/-- An optional sign: whether it is a minus, and what follows it. -/
def scanSign : List Char → Bool × List Char
  | '-' :: cs => (true, cs)
  | '+' :: cs => (false, cs)
  | cs => (false, cs)

/-- `%d`: blanks, a sign, at least one digit. -/
def scanInt (cs : List Char) : Option (ℤ × List Char) :=
  let (negative, cs) := scanSign (cs.dropWhile isSpace)
  let digits := cs.takeWhile Char.isDigit
  if digits = [] then none
  else
    let n : ℤ := Nat.ofDigitChars 10 digits 0
    some (storeInt (if negative then -n else n), cs.dropWhile Char.isDigit)

def scanDot : List Char → Option (List Char)
  | '.' :: cs => some cs
  | _ => none

/-- `sscanf(.., "%d.%d.%d", ..)` with all three conversions made. -/
def scanVersion (cs : List Char) : Option IDPversion := do
  let (major, cs) ← scanInt cs
  let (minor, cs) ← scanInt (← scanDot cs)
  let (patch, _) ← scanInt (← scanDot cs)
  return ⟨major, minor, patch⟩

def parseVersion (s : String) : Except LoadError IDPversion :=
  -- a C string ends at its first NUL
  match scanVersion (s.toList.takeWhile (· != '\x00')) with
  | some v => .ok v
  | none => refuse ("Invalid version format: " ++ s ++ " (expected X.Y.Z)")

/-! ### Sizes -/

/-- The factor of a size suffix. -/
def unitOf (suffix : String) : Option ℕ :=
  if suffix = "K" ∨ suffix = "k" then some 1024
  else if suffix = "M" ∨ suffix = "m" then some (1024 * 1024)
  else if suffix = "G" ∨ suffix = "g" then some (1024 * 1024 * 1024)
  else if suffix = "s" then some 512
  else if suffix = "" then some 1
  else none

/-- Translate a genimage size; the product is a `size_t`. -/
def fromGIsz (str : String) : Except Exn ℕ :=
  let numberPart := str.toList.takeWhile Char.isDigit
  let suffix := String.ofList (str.toList.dropWhile Char.isDigit)
  if numberPart = [] then .error ("Invalid GI size format: " ++ str)
  else
    let value := Nat.ofDigitChars 10 numberPart 0
    if value ≥ 2 ^ 64 then .error "stoull"
    else match unitOf suffix with
      | some unit => .ok (wrap (value * unit))
      | none => .error ("Unsupported GI size suffix: " ++ suffix)

/-! ### Compatibility -/

def checkIGCompat (root : Json) : Except LoadError String := do
  let str ← JCHK.string root "IGversion"
  let version ← parseVersion str
  if !version.ge ⟨2, 0, 0⟩ then refuse ("Unsupported IG version: " ++ version.toText)
  else
    let _ ← JCHK.tree root "IGmeta"
    let _ ← JCHK.tree root "attributes"
    let layout ← JCHK.tree root "layout"
    if !(← raises (layout.isMember "partitionimages")) then
      refuse "layout.partitionimages is missing"
    else
      let ptable ← JCHK.tree layout "partitiontable"
      let label ← JCHK.string ptable "label"
      if label ≠ "dos" ∧ label ≠ "gpt" then
        refuse ("Bad partition table label: '" ++ label ++ "'. Need dos|gpt")
      else return str

def checkPMAPCompat (root : Json) : Except LoadError String := do
  let layout ← JCHK.tree root "layout"
  let pmap ← JCHK.array layout "provisionmap"
  let str ← JCHK.nestedInArray pmap "attributes" "PMAPversion"
  let version ← parseVersion str
  if !version.ge ⟨1, 0, 0⟩ then refuse ("Unsupported PMAP version: " ++ version.toText)
  else return str

/-- The map of a description, once a navigator has been made for it. -/
def parsePMAPv1 (root : Json) : Except LoadError Json := do
  let layout ← JCHK.tree root "layout"
  let pmap ← JCHK.array layout "provisionmap"
  let type ← JCHK.nestedInArray pmap "attributes" "system_type"
  if type ≠ "flat" ∧ type ≠ "slotted" then
    refuse ("Bad system type in provisionmap: '" ++ type ++ "'. Need flat|slotted")
  else match ← raises (PartitionNavigator.create pmap) with
    | none => refuse "provisioning map could not be navigated; check the partition tree"
    | some _ => return pmap

/-! ### The image -/

def storageType (s : String) : Option StorageType :=
  if s = "sd" then some .sd
  else if s = "emmc" then some .emmc
  else if s = "nvme" then some .nvme
  else none

def ptableType (s : String) : Option IDPptableType :=
  if s = "dos" then some .dos else if s = "gpt" then some .gpt else none

/-- The device attributes of `IGmeta`. -/
def parseDevice (json : Json) (image : IDPimage) : Except (LoadError × IDPimage) IDPimage := do
  let obj ← leaving image (ignoring .null (JCHK.tree json "IGmeta"))
  let image ← stringInto obj "IGconf_device_class" (fun s i => { i with deviceClass := s }) image
  let str ← leaving image (JCHK.string obj "IGconf_device_storage_type")
  let sectors ← leaving image (JCHK.size obj "IGconf_device_sector_size")
  let image ← stringInto obj "IGconf_device_variant"
    (fun s i => { i with deviceVariant := s }) image
  let image ← stringInto obj "IGconf_image_version" (fun s i => { i with version := s }) image
  if sectors % 512 ≠ 0 then
    leaving image (refuse ("IGconf_device_sector_size is " ++ toString sectors ++
      ", which is not a multiple of 512"))
  else
    let image := { image with deviceStorage.sectorSize := sectors }
    match storageType str with
    | none => leaving image (refuse ("unsupported IGconf_device_storage_type '" ++ str ++ "'"))
    | some type => return { image with deviceStorage.type := type }

/-- The image attributes, with the partition alignment. -/
def parseAttributes (json : Json) (image : IDPimage) :
    Except (LoadError × IDPimage) IDPimage := do
  let obj ← leaving image (ignoring .null (JCHK.tree json "attributes"))
  let image ← stringInto obj "image-name" (fun s i => { i with name := s }) image
  let size ← leaving image (JCHK.size obj "image-size")
  let image := { image with size }
  let str ← leaving image (JCHK.string obj "image-palign-bytes")
  if size = 0 then leaving image (refuse "attributes.image-size is zero")
  else match fromGIsz str with
    | .error what =>
      leaving image (refuse ("attributes.image-palign-bytes is unreadable: " ++ what))
    | .ok align =>
      if align % (1024 * 1024) ≠ 0 then
        leaving image (refuse ("attributes.image-palign-bytes is " ++ toString align ++
          ", which is not a multiple of 1MiB"))
      else return { image with deviceStorage.ptableAlign := align }

/-- The label and the identifier of the partition table. -/
def parsePtable (json : Json) (image : IDPimage) : Except (LoadError × IDPimage) IDPimage := do
  let ptable ← leaving image (raises do (← json.get "layout").get "partitiontable")
  let label ← leaving image (raises do (← ptable.get "label").asString)
  match ptableType label with
  | none =>
    leaving image (refuse ("layout.partitiontable.label is '" ++ label ++
      "', expected dos or gpt"))
  | some type =>
    let image := { image with deviceStorage.ptableType := type }
    match ← leaving image (raises (ptable.get "id")) with
    | .null => return { image with deviceStorage.ptableId := none }
    | .str id =>
      return { image with deviceStorage.ptableId := if id = "" then none else some id }
    | _ => leaving image (refuse "layout.partitiontable.id must be a string")

/-- The stages of `parseIGv2` before the partitions: the image, and the map to walk. -/
def parseImage (json : Json) (image : IDPimage) :
    Except (LoadError × IDPimage) (IDPimage × Json) := do
  let image ← parseDevice json image
  let image ← parseAttributes json image
  let image ← parsePtable json image
  let str ← leaving image (checkPMAPCompat json)
  let version ← leaving image (parseVersion str)
  if version.major ≠ 1 then
    leaving image (refuse ("unsupported provisioning map major version " ++
      toString version.major))
  else if !VersionRange.contains ⟨⟨1, 0, 0⟩, ⟨2, 0, 0⟩⟩ version then
    leaving image (refuse ("No parser found for version " ++ version.toText))
  else return (image, ← leaving image (parsePMAPv1 json))

/-! ### The partitions -/

/-- A member by its path; null where the path ends early. -/
def getJSON : Json → List String → Json
  | node, [] => node
  | .obj ms, key :: keys =>
    match ms.lookup key with
    | some v => getJSON v keys
    | none => .null
  | _, _ :: _ => .null

/-- What an image of the layout says about a partition that holds it. -/
structure ImageAttrs where
  imgName : String
  simgName : String
  imgSize : ℕ
  pcode : String
  plabel : Option String
  puuid : Option String

/-- An optional string whose check is ignored. -/
def optImageString (img : Json) (key : String) : Except LoadError (Option String) := do
  if ← raises (img.isMember key) then ignoring none (some <$> JCHK.string img key)
  else return none

def imageAttrs (root : Json) (image : String) : Except LoadError ImageAttrs := do
  let img := getJSON root ["layout", "partitionimages", image]
  if img.isNull then refuse ("No image found for " ++ image)
  else
    let (imgName, simgName, imgSize) ← refusingWith
      (fun _ => "Attribute collection failed for partition image: " ++ image) (do
        return (← JCHK.string img "image", ← JCHK.string img "simage", ← JCHK.size img "size"))
    let inTable ← ignoring "" (JCHK.string img "in-partition-table")
    if inTable ≠ "true" then
      refuse ("Images requiring provisioning must declare a partition table entry (" ++
        image ++ ")")
    else
      let pcode ←
        if ← raises (img.isMember "partition-type") then
          ignoring "" (JCHK.string img "partition-type")
        else if ← raises (img.isMember "partition-type-uuid") then
          ignoring "" (JCHK.string img "partition-type-uuid")
        else refuse ("No partition code found for " ++ image)
      let plabel ← optImageString img "partition-label"
      let puuid ← optImageString img "partition-uuid"
      return { imgName, simgName, imgSize, pcode, plabel, puuid }

/-- The partitions so far, and the positions of the visited ones by their order. -/
structure Collected where
  partitions : List IDPpartition := []
  p2i : List (ℕ × ℤ) := []

/-- The position of a parent, `-1` when there is none. -/
def Collected.indexOf (st : Collected) : Option ℕ → ℤ
  | some parent => (st.p2i.lookup parent).getD (-1)
  | none => -1

/-- The attributes of a partition for the API, without its place in the list. -/
def partitionBody (root : Json) (image : IDPimage) (p : Partition) :
    Except LoadError IDPpartition := do
  let attrs ← if p.isCryptContainer then pure none else some <$> imageAttrs root p.image
  if image.deviceStorage.ptableType = .dos ∧ p.order > 4 then
    refuse "MBR support restricted to primary partitions only"
  else match p.luks, attrs with
    | some luks, _ =>
      return {
        luks := some { luks with
          pAlignmentBytes := image.deviceStorage.ptableAlign
          sectorSize := image.deviceStorage.sectorSize }
        expandToFit := p.expandToFit }
    | none, some a =>
      return {
        img := some a.imgName
        simg := some a.simgName
        size := a.imgSize
        alignedSize := ← raises (image.deviceStorage.alignUp a.imgSize)
        typecode := some a.pcode
        gptlabel := a.plabel
        gptuuid := a.puuid
        expandToFit := p.expandToFit }
    -- a partition without LUKS parameters has had its image looked up
    | none, none => refuse ""

/-- The callback of the walk: add a visited partition to the list. -/
def addPartition (root : Json) (image : IDPimage) (p : Partition) (st : Collected) :
    Except LoadError Collected := do
  let body ← partitionBody root image p
  let index : ℤ := st.partitions.length
  return {
    partitions := st.partitions ++ [{ body with index, parentIndex := st.indexOf p.parent }]
    p2i := (p.order, index) :: st.p2i }

/-! ### The partition tree -/

/-- Number the children of a partition in list order. -/
def numberChildren (parent : ℤ) : ℕ → List IDPpartition → List IDPpartition
  | _, [] => []
  | n, child :: rest =>
    if child.parentIndex = parent then { child with num := n } :: numberChildren parent (n + 1) rest
    else child :: numberChildren parent n rest

/-- `%02d` after a fixed text. -/
def cryptLabel (n : ℕ) : String := "rpi-crypt" ++ (if n < 10 then "0" else "") ++ toString n

structure TreeState where
  rootNum : ℕ := 1
  cryptNum : ℕ := 1
  partitions : List IDPpartition

/-- The table attributes of a container. -/
def labelContainer (ptable : IDPptableType) (st : TreeState) (part : IDPpartition) :
    ℕ × IDPpartition :=
  match part.luks, ptable with
  | none, _ => (st.cryptNum, part)
  | some luks, .gpt =>
    let part := { part with typecode := some "0fc63daf-8483-4772-8e79-3d69d8477de4" }
    match luks.label with
    | some label => (st.cryptNum, { part with gptlabel := some label })
    | none => (st.cryptNum + 1, { part with gptlabel := some (cryptLabel st.cryptNum) })
  | some _, .dos => (st.cryptNum, { part with typecode := some "0x83" })

/-- One root partition and its children. -/
def walkTreeStep (ptable : IDPptableType) (st : TreeState) (i : ℕ) : TreeState :=
  match st.partitions[i]? with
  | none => st
  | some part =>
    if part.parentIndex = -1 then
      let (cryptNum, part) := labelContainer ptable st { part with num := st.rootNum }
      { rootNum := st.rootNum + 1
        cryptNum
        partitions := numberChildren part.index 1 (st.partitions.set i part) }
    else st

def walkTree (ptable : IDPptableType) (partitions : List IDPpartition) : List IDPpartition :=
  ((List.range partitions.length).foldl (walkTreeStep ptable) { partitions }).partitions

/-! ### The parser -/

structure IDPparser where
  root : Json := .null
  jvalid : Bool := false
  image : IDPimage := {}
  partitions : List IDPpartition := []

/-- Collapse line breaks: a run of them is one blank, none at the start. -/
def flattenLines (s : String) : String :=
  let step (st : List Char × Bool) (c : Char) : List Char × Bool :=
    if c == '\n' || c == '\r' || c == '\t' then (st.1, !st.1.isEmpty)
    else (st.1 ++ (if st.2 then [' ', c] else [c]), false)
  String.ofList (s.toList.foldl step ([], false)).1

namespace IDPparser

/-- The partitions of the map, collected into the parser. -/
def collectPartitions (p : IDPparser) (pmap : Json) : Except LoadError Unit × IDPparser :=
  match foreachPartition (addPartition p.root p.image) pmap {} with
  | .ok st => (.ok (), { p with partitions := st.partitions })
  | .error (e, st) =>
    (refusingWith (fun perr => "Partition processing failed: " ++ perr) (.error e),
      { p with partitions := st.partitions })

def parseIGv2 (p : IDPparser) : Except LoadError Unit × IDPparser :=
  match parseImage p.root p.image with
  | .ok (image, pmap) => collectPartitions { p with image } pmap
  | .error (e, image) => (.error e, { p with image })

/-- The version checks of `IGvalidate`. -/
def igVersion (root : Json) : Except LoadError Unit := do
  let str ← refusingWith (fun e => "image generator block invalid: " ++ e) (checkIGCompat root)
  let version ← refusingWith (fun e => "cannot parse version '" ++ str ++ "': " ++ e)
    (parseVersion str)
  if version.major ≠ 2 then
    refuse ("unsupported image generator major version " ++ toString version.major)
  else if !VersionRange.contains ⟨⟨2, 0, 0⟩, ⟨3, 0, 0⟩⟩ version then
    refuse ("No parser found for version " ++ version.toText)
  else return

def igValidate (p : IDPparser) : Except LoadError Unit × IDPparser :=
  match igVersion p.root with
  | .error e => (.error e, p)
  | .ok () =>
    match parseIGv2 p with
    | (.ok (), p) =>
      (.ok (), { p with partitions := walkTree p.image.deviceStorage.ptableType p.partitions })
    | (.error e, p) => (.error e, p)

/-- `loadJSON`: success is `true`, a refusal `false` with the error, and an exception leaves the
validity of the previous load. -/
def loadJSON (reader : String → Except String Json.Doc) (p : IDPparser) (text : String) :
    Except LoadError Unit × IDPparser :=
  match reader text with
  | .error e => (refuse ("not valid JSON: " ++ flattenLines e), p)
  | .ok doc =>
    match igValidate { p with root := doc.root } with
    | (.ok (), p) => (.ok (), { p with jvalid := true })
    | (.error (.refused e), p) => (refuse e, { p with jvalid := false })
    | (.error e, p) => (.error e, p)

def getImage (p : IDPparser) : Option IDPimage := if p.jvalid then some p.image else none

end IDPparser

end RpiFastbootd
