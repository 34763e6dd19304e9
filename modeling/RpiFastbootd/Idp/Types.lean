import RpiFastbootd.Lib.Word

/-!
# Image description data

The records an image description is parsed into: LUKS parameters, the storage device, the image
and its partitions, with the operations their headers define.  A process that dies on the way (a
division by zero in the header size, a recursion that never ends) has no value: those operations
return an `Option`.
-/

namespace RpiFastbootd

/-! ### LUKS containers -/

/-- How the children of a container are laid out in it. -/
inductive EncapType
  | raw
  | partitioned
  deriving DecidableEq, Repr

/-- LUKS parameters. `version` and `headerSizeBytes` keep their defaults in every description. -/
structure IDPluks where
  etype : EncapType := .raw
  version : ℕ := 2
  hash : String
  keySize : ℕ
  cipher : String
  sectorSize : ℕ := 512
  mname : String
  label : Option String := none
  uuid : Option String := none
  payloadOffsetSectors : Option ℕ := none
  headerSizeBytes : Option ℕ := none
  pAlignmentBytes : ℕ := 1024 * 1024
  deriving DecidableEq, Repr

namespace IDPluks

/-- Size reserved for the header before alignment. -/
def rawHeaderSize (l : IDPluks) : ℕ :=
  match l.version with
  | 1 => wrap (l.payloadOffsetSectors.getD 2048 * l.sectorSize)
  | 2 => l.headerSizeBytes.getD (16 * 1024 * 1024)
  | _ => 0

/-- The aligned header size; `none` is the division by a zero alignment. -/
def headerSize (l : IDPluks) : Option ℕ :=
  if l.pAlignmentBytes = 0 then none else some (alignUp64 l.rawHeaderSize l.pAlignmentBytes)

/-- The mapper node of the container, or of its partition `partnum`. -/
def blockDev (l : IDPluks) (partnum : Option ℕ) : String :=
  if l.mname = "" then ""
  else
    let base := "/dev/mapper" ++ ("/" ++ l.mname)
    match l.etype, partnum with
    | .partitioned, some n => if 1 ≤ n then base ++ toString n else base
    | _, _ => base

end IDPluks

/-! ### Storage and image -/

inductive IDPptableType
  | dos
  | gpt
  deriving DecidableEq, Repr

inductive StorageType
  | sd
  | emmc
  | nvme
  deriving DecidableEq, Repr

structure IDPstorage where
  type : StorageType := .sd
  sectorSize : ℕ := 0
  ptableAlign : ℕ := 0
  ptableType : IDPptableType := .dos
  ptableId : Option String := none
  deriving DecidableEq, Repr

namespace IDPstorage

/-- The disk's node, or that of its partition `partnum`. -/
def blockDev (s : IDPstorage) (partnum : Option ℕ) : String :=
  let base := match s.type with
    | .sd | .emmc => "/dev/mmcblk0"
    | .nvme => "/dev/nvme0n1"
  match partnum with
  | some n => if 1 ≤ n then base ++ ("p" ++ toString n) else base
  | none => base

/-- Round a size up to the partition alignment; raises when the 64-bit sum does not fit. -/
def alignUp (s : IDPstorage) (size : ℕ) : Except String ℕ :=
  if s.ptableAlign = 0 then .ok 0
  else if size > 2 ^ 64 - 1 - s.ptableAlign + 1 then .error "Size too large for alignment"
  else .ok (alignUp64 size s.ptableAlign)

/-- When `alignUp` does not raise, its result is the rounding in unbounded numbers. -/
theorem alignUp_ok {s : IDPstorage} {size a : ℕ} (hs : s.ptableAlign < 2 ^ 64)
    (h : s.alignUp size = .ok a) : a = alignUpNat size s.ptableAlign ∧ a < 2 ^ 64 := by
  unfold alignUp at h
  split_ifs at h with h0 h1
  · cases h
    simp [alignUpNat, h0]
  · cases h
    exact ⟨alignUp64_eq (Nat.pos_of_ne_zero h0) (by omega), wrap_lt _⟩

/-- What `alignUp` accepts leaves room for the alignment. -/
theorem alignUp_room {s : IDPstorage} {size a : ℕ} (hs : s.ptableAlign < 2 ^ 64)
    (hpos : 0 < s.ptableAlign) (h : s.alignUp size = .ok a) : size + s.ptableAlign ≤ 2 ^ 64 := by
  unfold alignUp at h
  split_ifs at h with h0
  · omega
  · omega

end IDPstorage

structure IDPimage where
  deviceClass : String := ""
  deviceStorage : IDPstorage := {}
  deviceVariant : String := ""
  version : String := ""
  name : String := ""
  size : ℕ := 0
  deriving DecidableEq, Repr

/-! ### Partitions -/

/-- A partition of the description: `index` is its position, `parentIndex` that of its
container or `-1`. -/
structure IDPpartition where
  expandToFit : Bool := false
  num : ℕ := 0
  img : Option String := none
  simg : Option String := none
  size : ℕ := 0
  alignedSize : ℕ := 0
  typecode : Option String := none
  gptlabel : Option String := none
  gptuuid : Option String := none
  luks : Option IDPluks := none
  index : ℤ := -1
  parentIndex : ℤ := -1
  blkdev : Option String := none
  deriving DecidableEq, Repr

namespace IDPpartition

def isCryptContainer (p : IDPpartition) : Bool := p.luks.isSome

def getBlockDev (p : IDPpartition) : String := p.blkdev.getD ""

def setBlockDev (p : IDPpartition) (dev : String) : IDPpartition := { p with blkdev := some dev }

def isEncrypted (p : IDPpartition) (all : List IDPpartition) : Bool :=
  if p.parentIndex < 0 ∨ p.parentIndex ≥ all.length then false
  else match all[p.parentIndex.toNat]? with
    | some parent => parent.isCryptContainer
    | none => false

/-- The partitions `foreachChild` visits. -/
def children (p : IDPpartition) (all : List IDPpartition) : List IDPpartition :=
  all.filter fun candidate => candidate.parentIndex == p.index

def hasChildren (p : IDPpartition) (all : List IDPpartition) : Bool :=
  all.any fun candidate => candidate.parentIndex == p.index

/-- The part of `getSize` that does not recurse. -/
def ownSize (p : IDPpartition) (aligned : Bool) : Option ℕ :=
  match p.luks with
  | some l => do
    let header ← l.headerSize
    match l.etype with
    | .partitioned => return wrap (header + wrap (l.pAlignmentBytes * 2))
    | .raw => return header
  | none => return if aligned then p.alignedSize else p.size

/-- `getSize` to a recursion depth; `none` when the process dies or the depth is used up. -/
def getSizeAux (aligned : Bool) (all : List IDPpartition) : ℕ → IDPpartition → Option ℕ
  | 0, _ => none
  | depth + 1, p => do
    let own ← p.ownSize aligned
    (p.children all).foldlM (fun total child => do
      return wrap (total + (← getSizeAux aligned all depth child))) own

/-- The size of a partition with its children. A chain of parents longer than the list itself
repeats, so the recursion that goes past that depth never ends. -/
def getSize (p : IDPpartition) (aligned : Bool) (all : List IDPpartition) : Option ℕ :=
  getSizeAux aligned all (all.length + 1) p

end IDPpartition

end RpiFastbootd
