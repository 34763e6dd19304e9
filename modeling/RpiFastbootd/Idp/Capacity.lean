import Mathlib.Tactic.Ring
import RpiFastbootd.Idp.Parser
import RpiFastbootd.Lib.Outcome
import RpiFastbootd.Lib.Text

/-!
# Two readers of the sector count

The kernel reports the size of a disk in units of 512 bytes.  `IDPstorage::capacityBytes` and
`getvar block-device-size` both turn that count into bytes, the first with the logical block size
of the disk and the second with 512.  They agree exactly when the two products are the same 64-bit
number (`capacityBytes_agrees_iff`).
-/

namespace RpiFastbootd

/-! ### Reading a number from a file -/

/-- Blanks, a sign and digits: whether the number is negated, and its size. -/
def scanUnsigned (cs : List Char) : Option (Bool × ℕ) :=
  let (negative, cs) := scanSign (cs.dropWhile isSpace)
  let digits := cs.takeWhile Char.isDigit
  if digits = [] then none else some (negative, Nat.ofDigitChars 10 digits 0)

/-- A 64-bit number, negated in 64 bits. -/
def negate64 (negative : Bool) (n : ℕ) : ℕ := if negative then wrap (2 ^ 64 - n) else n

/-- `stream >> n` for a `uint64_t`: no number reads as zero, one too large as the largest. -/
def streamU64 (text : String) : ℕ :=
  match scanUnsigned text.toList with
  | none => 0
  | some (negative, n) => if n < 2 ^ 64 then negate64 negative n else 2 ^ 64 - 1

def stoull (text : String) : Except Exn ℕ :=
  match scanUnsigned text.toList with
  | none => .error "stoull"
  | some (negative, n) => if n < 2 ^ 64 then .ok (negate64 negative n) else .error "stoull"

def trim (text : String) : String :=
  String.ofList ((text.toList.dropWhile isSpace).reverse.dropWhile isSpace).reverse

/-- An attribute of the kernel: a decimal number on a line. -/
def sysfsText (n : ℕ) : String := toString n ++ "\n"

theorem scanSign_of_isDigit {c : Char} {cs : List Char} (h : c.isDigit) :
    scanSign (c :: cs) = (false, c :: cs) := by
  unfold scanSign
  split
  · rename_i heq
    cases heq
    exact absurd h (by decide)
  · rename_i heq
    cases heq
    exact absurd h (by decide)
  · rfl

/-- The digits of a number, followed by anything but a digit, scan as that number. -/
theorem scanUnsigned_repr (n : ℕ) {rest : List Char} (hr : rest.takeWhile Char.isDigit = []) :
    scanUnsigned (n.repr.toList ++ rest) = some (false, n) := by
  have hdigit : ∀ c ∈ n.repr.toList, c.isDigit := fun c hc => isDigit_of_mem_repr hc
  have hvalue : Nat.ofDigitChars 10 n.repr.toList 0 = n := by
    rw [Nat.toList_repr, Nat.ofDigitChars_ten_toDigits]
  have hne : n.repr.toList ≠ [] := by simp
  have htake : (n.repr.toList ++ rest).takeWhile Char.isDigit = n.repr.toList := by
    rw [List.takeWhile_append_of_pos hdigit, hr, List.append_nil]
  obtain ⟨c, cs, hcs⟩ := List.exists_cons_of_ne_nil hne
  have hc : c.isDigit := hdigit c (by simp [hcs])
  have hdrop : scanSign ((n.repr.toList ++ rest).dropWhile isSpace) =
      (false, n.repr.toList ++ rest) := by
    rw [hcs, List.cons_append, List.dropWhile_cons_of_neg (by simp [not_isSpace_of_isDigit hc]),
      scanSign_of_isDigit hc]
  simp only [scanUnsigned, hdrop, htake, if_neg hne, hvalue]

theorem streamU64_sysfsText {n : ℕ} (h : n < 2 ^ 64) : streamU64 (sysfsText n) = n := by
  have hs : scanUnsigned (sysfsText n).toList = some (false, n) := by
    rw [sysfsText, String.toList_append]
    exact scanUnsigned_repr n (by decide)
  simp only [streamU64, hs, if_pos h]
  rfl

theorem dropWhile_isSpace_of_isDigit {cs : List Char} (h : ∀ c ∈ cs, c.isDigit) :
    cs.dropWhile isSpace = cs := by
  cases cs with
  | nil => rfl
  | cons c cs =>
    rw [List.forall_mem_cons] at h
    rw [List.dropWhile_cons_of_neg (by simp [not_isSpace_of_isDigit h.1])]

theorem trim_sysfsText (n : ℕ) : trim (sysfsText n) = n.repr := by
  have hdigit : ∀ c ∈ n.repr.toList, c.isDigit := fun c hc => isDigit_of_mem_repr hc
  obtain ⟨c, cs, hcs⟩ := List.exists_cons_of_ne_nil (show n.repr.toList ≠ [] by simp)
  have hc : c.isDigit := hdigit c (by simp [hcs])
  have hleft : (sysfsText n).toList.dropWhile isSpace = n.repr.toList ++ ['\n'] := by
    change (n.repr ++ "\n").toList.dropWhile isSpace = _
    rw [String.toList_append, hcs, List.cons_append,
      List.dropWhile_cons_of_neg (by simp [not_isSpace_of_isDigit hc])]
    rfl
  have hright : (n.repr.toList ++ ['\n']).reverse.dropWhile isSpace = n.repr.toList.reverse := by
    rw [List.reverse_append]
    exact dropWhile_isSpace_of_isDigit fun c hc => hdigit c (List.mem_reverse.1 hc)
  rw [trim, hleft, hright, List.reverse_reverse, String.ofList_toList]

theorem stoull_trim_sysfsText {n : ℕ} (h : n < 2 ^ 64) : stoull (trim (sysfsText n)) = .ok n := by
  have hs : scanUnsigned n.repr.toList = some (false, n) := by
    simpa using @scanUnsigned_repr n [] rfl
  rw [trim_sysfsText]
  simp only [stoull, hs, if_pos h]
  rfl

/-! ### The two readers -/

/-- The files of the disk `name` as the kernel shows them: the size in units of 512 bytes, and the
logical block size where it can be read. -/
structure Sysfs (name : String) where
  file : String → Option String
  sectors : ℕ
  logicalBlockSize : Option ℕ
  sectors_lt : sectors < 2 ^ 64
  logical_lt : ∀ n ∈ logicalBlockSize, n < 2 ^ 64
  size_text : file ("/sys/block/" ++ name ++ "/size") = some (sysfsText sectors)
  logical_text : file ("/sys/block/" ++ name ++ "/queue/logical_block_size") =
    logicalBlockSize.map sysfsText

/-- The last component of a path. -/
def blockName (dev : String) : String :=
  String.ofList (dev.toList.reverse.takeWhile (· != '/')).reverse

/-- The capacity of the disk; `node` tells which device nodes exist and `file` reads a file. -/
def IDPstorage.capacityBytes (s : IDPstorage) (node : String → Bool)
    (file : String → Option String) : Option ℕ :=
  let dev := s.blockDev none
  if !node dev then none
  else
    let name := blockName dev
    match file ("/sys/block/" ++ name ++ "/size") with
    | none => none
    | some text =>
      let sectors := streamU64 text
      let sectorSize := match file ("/sys/block/" ++ name ++ "/queue/logical_block_size") with
        | some text => streamU64 text
        | none => 512
      if sectorSize ≠ s.sectorSize then none else some (wrap (sectors * sectorSize))

/-- Two dots in a row. -/
def hasDots : List Char → Bool
  | '.' :: '.' :: _ => true
  | _ :: cs => hasDots cs
  | [] => false

/-- `getvar block-device-size`: success and the message. -/
def getBlockDeviceSize (file : String → Option String) : List String → Except Exn (Bool × String)
  | [] => return (false, "Missing device name")
  | name :: _ => do
    if name.toList.contains '/' || hasDots name.toList then
      return (false, "Invalid device name")
    match file ("/sys/block/" ++ name ++ "/size") with
    | none => return (false, "Cannot read device size")
    | some text =>
      -- the attribute is always in 512-byte sectors
      return (true, toString (wrap ((← stoull (trim text)) * 512)))

theorem capacityBytes_eq_some_iff (s : IDPstorage) (node : String → Bool)
    (sys : Sysfs (blockName (s.blockDev none))) {c : ℕ} :
    s.capacityBytes node sys.file = some c ↔
      node (s.blockDev none) ∧ sys.logicalBlockSize.getD 512 = s.sectorSize ∧
        c = wrap (sys.sectors * s.sectorSize) := by
  have hlogical : (match sys.logicalBlockSize.map sysfsText with
      | some text => streamU64 text
      | none => 512) = sys.logicalBlockSize.getD 512 := by
    cases hl : sys.logicalBlockSize with
    | none => rfl
    | some n => exact streamU64_sysfsText (sys.logical_lt n hl)
  simp only [IDPstorage.capacityBytes, sys.size_text, sys.logical_text,
    streamU64_sysfsText sys.sectors_lt]
  rw [hlogical]
  cases hn : node (s.blockDev none) with
  | false => simp
  | true =>
    by_cases hs : sys.logicalBlockSize.getD 512 = s.sectorSize
    · simp [hs, eq_comm]
    · simp [hs]

theorem blockDev_disk (s : IDPstorage) :
    s.blockDev none = "/dev/mmcblk0" ∨ s.blockDev none = "/dev/nvme0n1" := by
  unfold IDPstorage.blockDev
  cases s.type <;> simp

/-- The disk of a storage has a plain name, so its size is reported. -/
theorem getBlockDeviceSize_eq (s : IDPstorage) (sys : Sysfs (blockName (s.blockDev none))) :
    getBlockDeviceSize sys.file [blockName (s.blockDev none)] =
      .ok (true, toString (wrap (sys.sectors * 512))) := by
  have hname : ((blockName (s.blockDev none)).toList.contains '/' ||
      hasDots (blockName (s.blockDev none)).toList) = false := by
    rcases blockDev_disk s with h | h <;> rw [h] <;> decide
  simp only [getBlockDeviceSize, hname, Bool.false_eq_true, if_false, sys.size_text,
    stoull_trim_sysfsText sys.sectors_lt, ok_bind]
  rfl

/-- The capacity and the reported size of a disk agree exactly when the sector size, which the
capacity is computed with, makes no difference to the product in 64 bits. -/
theorem capacityBytes_agrees_iff (s : IDPstorage) (node : String → Bool)
    (sys : Sysfs (blockName (s.blockDev none))) :
    (∀ c, s.capacityBytes node sys.file = some c →
      getBlockDeviceSize sys.file [blockName (s.blockDev none)] = .ok (true, toString c)) ↔
    (node (s.blockDev none) → sys.logicalBlockSize.getD 512 = s.sectorSize →
      (2 : ℤ) ^ 64 ∣ sys.sectors * ((s.sectorSize : ℤ) - 512)) := by
  have hdvd : (2 : ℤ) ^ 64 ∣ sys.sectors * ((s.sectorSize : ℤ) - 512) ↔
      wrap (sys.sectors * 512) = wrap (sys.sectors * s.sectorSize) := by
    rw [eq_comm, wrap_eq_wrap_iff]
    push_cast
    rw [mul_sub]
  rw [hdvd, getBlockDeviceSize_eq]
  simp only [capacityBytes_eq_some_iff, and_imp, Except.ok.injEq, Prod.mk.injEq, true_and]
  constructor
  · intro h hn hs
    exact repr_injective (h _ hn hs rfl)
  · rintro h c hn hs rfl
    rw [h hn hs]

/-- A disk with 4096-byte sectors. -/
def sectors4096 : Sysfs "nvme0n1" where
  file path :=
    if path = "/sys/block/nvme0n1/size" then some "1000\n"
    else if path = "/sys/block/nvme0n1/queue/logical_block_size" then some "4096\n"
    else none
  sectors := 1000
  logicalBlockSize := some 4096
  sectors_lt := by norm_num
  logical_lt := by simp
  size_text := by decide
  logical_text := by decide

/-- Of a disk with 1000 units of 512 bytes the capacity is eight times the reported size. -/
theorem capacity_disagrees_nvme :
    IDPstorage.capacityBytes { type := .nvme, sectorSize := 4096 } (fun _ => true)
        sectors4096.file = some 4096000 ∧
      getBlockDeviceSize sectors4096.file ["nvme0n1"] = .ok (true, "512000") := by
  decide +kernel

end RpiFastbootd
