import Mathlib.Data.List.Infix
import RpiFastbootd.Fastboot.Types

/-!
# Partitions and their handles

A partition is named by its device node.  `OpenPartition` looks the node up and gives a handle, but
does not open it: the descriptor of the handle stays invalid until `Open` is called.
-/

namespace RpiFastbootd

/-- The device lock is not implemented. -/
def getDeviceLockStatus : Bool := false

def hasPrefix (pre s : String) : Bool := pre.toList.isPrefixOf s.toList

def hasInfix (part s : String) : Bool := s.toList.tails.any part.toList.isPrefixOf

theorem hasPrefix_iff {pre s : String} : hasPrefix pre s = true ↔ pre.toList <+: s.toList :=
  List.isPrefixOf_iff_prefix

theorem hasInfix_iff {part s : String} : hasInfix part s = true ↔ part.toList <:+: s.toList := by
  unfold hasInfix
  rw [List.any_eq_true, List.infix_iff_prefix_suffix]
  simp only [List.mem_tails, List.isPrefixOf_iff_prefix, and_comm]

/-- The path of the node, if the daemon may write to it. -/
def findPhysicalPartition (writable : String → Bool) (name : String) : Option String :=
  if hasPrefix "../" name || hasInfix "/../" name then none
  else
    let path := if hasPrefix "/dev" name then name else "/dev/" ++ name
    if writable path then some path else none

/-- A handle; `fd` is `none` as long as the node has not been opened. -/
structure PartitionHandle where
  path : String := ""
  fd : Option ℕ := none
  deriving DecidableEq, Repr

def openPhysicalPartition (writable : String → Bool) (name : String) : Option PartitionHandle :=
  (findPhysicalPartition writable name).map fun path => { path }

/-- `OpenPartition`: there are no logical partitions, and the call of `Open` is commented out. -/
def openPartition (writable : String → Bool) (name : String) : Option PartitionHandle :=
  openPhysicalPartition writable name

/-- A handle that `OpenPartition` gives has no descriptor. -/
theorem fd_openPartition {writable : String → Bool} {name : String} {handle : PartitionHandle}
    (h : openPartition writable name = some handle) : handle.fd = none := by
  obtain ⟨path, -, rfl⟩ := Option.map_eq_some_iff.1 h
  rfl

end RpiFastbootd
