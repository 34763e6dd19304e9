import RpiFastbootd.Fastboot.Partition

/-!
# Erasing

`erase` asks the kernel for the size of the partition and discards that many bytes, securely if
possible.  A size of zero stands for an error of the query and for an empty device alike, and
counts as wiped.  The handle it works on has not been opened, so the size query always fails: the
command replies OKAY for every partition it finds and discards nothing.
-/

namespace RpiFastbootd

/-- A request to the driver of a block device. -/
inductive BlockRequest
  | getSize64
  | secDiscard (offset len : ℕ)
  | discard (offset len : ℕ)
  | rereadPart
  deriving DecidableEq, Repr

/-- The block devices: which nodes are writable, the node behind an open descriptor, the size of a
node, and which requests on an open descriptor the kernel grants. -/
structure BlockWorld where
  writable : String → Bool
  node : ℕ → Option String
  size : String → ℕ
  grants : ℕ → BlockRequest → Bool

/-- A request, the descriptor it was made on, and whether it succeeded. -/
structure IoctlCall where
  fd : Option ℕ
  request : BlockRequest
  ok : Bool
  deriving DecidableEq, Repr

/-- A request on anything but an open descriptor fails. -/
def ioctl (w : BlockWorld) (fd : Option ℕ) (request : BlockRequest) : IoctlCall :=
  ⟨fd, request, match fd with
    | none => false
    | some n => (w.node n).isSome && w.grants n request⟩

/-- The size in bytes, 0 when the query fails; and the call. -/
def Android.getBlockDeviceSize (w : BlockWorld) (fd : Option ℕ) : ℕ × List IoctlCall :=
  let call := ioctl w fd .getSize64
  (if call.ok then ((fd.bind w.node).map w.size).getD 0 else 0, [call])

/-- Whether the wipe returned 0, and the calls. -/
def Android.wipeBlockDevice (w : BlockWorld) (fd : Option ℕ) : Bool × List IoctlCall :=
  let (len, calls) := Android.getBlockDeviceSize w fd
  if len = 0 then (true, calls)
  else
    let secure := ioctl w fd (.secDiscard 0 len)
    if secure.ok then (true, calls ++ [secure])
    else
      let plain := ioctl w fd (.discard 0 len)
      (plain.ok, calls ++ [secure, plain])

/-- No snapshot update is ever in progress. -/
def isSnapshotUpdateInProgress : Bool := false

def isProtectedPartitionDuringMerge (name : String) : Bool :=
  ["userdata", "metadata", "misc"].contains name && isSnapshotUpdateInProgress

/-- `EraseHandler`: the reply, and the calls it has made. -/
def eraseHandler (w : BlockWorld) (args : List String) : Response × List IoctlCall :=
  match args with
  | _ :: name :: _ =>
    if getDeviceLockStatus then (⟨.fail, "Erase is not allowed on locked devices"⟩, [])
    else
      let name := "/dev/" ++ name
      if isProtectedPartitionDuringMerge name then
        (⟨.fail, "Cannot erase " ++ name ++ " while a snapshot update is in progress"⟩, [])
      else match openPartition w.writable name with
        | none => (⟨.fail, "Partition doesn't exist"⟩, [])
        | some handle =>
          let (wiped, calls) := Android.wipeBlockDevice w handle.fd
          if wiped then (⟨.okay, "Erasing succeeded"⟩, calls ++ [ioctl w handle.fd .rereadPart])
          else (⟨.fail, "Erasing failed"⟩, calls)
  | _ => (⟨.fail, "Invalid arguments"⟩, [])

/-- A discard of all the bytes of the node, on an open descriptor of it, has succeeded. -/
def Discarded (w : BlockWorld) (path : String) (calls : List IoctlCall) : Prop :=
  ∃ fd, w.node fd = some path ∧
    (⟨some fd, .secDiscard 0 (w.size path), true⟩ ∈ calls ∨
      ⟨some fd, .discard 0 (w.size path), true⟩ ∈ calls)

/-- If the command replies OKAY, the partition it names has been discarded. -/
def EraseSound (w : BlockWorld) (args : List String) : Prop :=
  (eraseHandler w args).1.result = .okay →
    ∃ path, findPhysicalPartition w.writable ("/dev/" ++ args.getD 1 "") = some path ∧
      Discarded w path (eraseHandler w args).2

theorem ioctl_none (w : BlockWorld) (request : BlockRequest) :
    ioctl w none request = ⟨none, request, false⟩ := rfl

/-- Without a descriptor nothing is discarded, and the wipe counts as done. -/
theorem wipeBlockDevice_none (w : BlockWorld) :
    Android.wipeBlockDevice w none = (true, [⟨none, .getSize64, false⟩]) := rfl

theorem not_discarded_of_fd_none {w : BlockWorld} {path : String} {calls : List IoctlCall}
    (h : ∀ c ∈ calls, c.fd = none) : ¬ Discarded w path calls := by
  rintro ⟨fd, -, hc | hc⟩
  · cases h _ hc
  · cases h _ hc

/-- On a partition that is found, the command replies OKAY without a single request that could
have succeeded. -/
theorem eraseHandler_of_found {w : BlockWorld} {cmd name path : String} {rest : List String}
    (h : findPhysicalPartition w.writable ("/dev/" ++ name) = some path) :
    eraseHandler w (cmd :: name :: rest) =
      (⟨.okay, "Erasing succeeded"⟩, [⟨none, .getSize64, false⟩, ⟨none, .rereadPart, false⟩]) := by
  have hprotected : isProtectedPartitionDuringMerge ("/dev/" ++ name) = false := by
    rw [isProtectedPartitionDuringMerge, isSnapshotUpdateInProgress, Bool.and_false]
  simp only [eraseHandler, getDeviceLockStatus, hprotected, openPartition, openPhysicalPartition, h,
    Option.map_some, wipeBlockDevice_none, ioctl_none, Bool.false_eq_true, if_false, if_true,
    List.singleton_append]

/-- What OKAY says about the partition is true exactly when the command is refused: for want of a
name, or because there is no such partition. -/
theorem erase_sound_iff (w : BlockWorld) (args : List String) :
    EraseSound w args ↔
      args.length < 2 ∨ findPhysicalPartition w.writable ("/dev/" ++ args.getD 1 "") = none := by
  unfold EraseSound
  match args with
  | [] => simp [eraseHandler]
  | [_] => simp [eraseHandler]
  | cmd :: name :: rest =>
    rw [or_iff_right (by simp)]
    change (_ → ∃ path, findPhysicalPartition w.writable ("/dev/" ++ name) = some path ∧ _) ↔
      findPhysicalPartition w.writable ("/dev/" ++ name) = none
    cases hfind : findPhysicalPartition w.writable ("/dev/" ++ name) with
    | none =>
      have hprotected : isProtectedPartitionDuringMerge ("/dev/" ++ name) = false := by
        rw [isProtectedPartitionDuringMerge, isSnapshotUpdateInProgress, Bool.and_false]
      simp [eraseHandler, getDeviceLockStatus, hprotected, openPartition, openPhysicalPartition,
        hfind]
    | some path =>
      rw [eraseHandler_of_found hfind]
      refine iff_of_false (fun h => ?_) (fun h => by cases h)
      obtain ⟨_, -, hdiscarded⟩ := h rfl
      exact not_discarded_of_fd_none (by simp) hdiscarded

/-- A writable disk of 16 GiB whose driver grants everything. -/
def sampleDisk : BlockWorld where
  writable path := path = "/dev/mmcblk0"
  node _ := some "/dev/mmcblk0"
  size _ := 17179869184
  grants _ _ := true

theorem erase_okay_not_discarded : ¬ EraseSound sampleDisk ["erase", "mmcblk0"] := by
  have hfind : findPhysicalPartition sampleDisk.writable ("/dev/" ++ "mmcblk0") =
      some "/dev/mmcblk0" := by decide
  unfold EraseSound
  rw [eraseHandler_of_found hfind]
  intro h
  obtain ⟨_, -, hdiscarded⟩ := h rfl
  exact not_discarded_of_fd_none (by simp) hdiscarded

end RpiFastbootd
