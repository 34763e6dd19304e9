import Mathlib.Order.Bounds.Defs
import RpiFastbootd.Idp.Parted
import RpiFastbootd.Fastboot.Oem

/-!
# The size of a new partition

`RPIparted::appendPartition` rounds a size in bytes up to sectors, and the sectors up to the grain,
in 64 bits.  The count that it hands to libfdisk is the least one that holds the size as long as
neither sum goes over; near the top of the range it is zero or far too small
(`append_size_sound_iff`).
-/

namespace RpiFastbootd

namespace RPIparted

/-- The number of sectors that a request sets in the new partition, if it comes to the call of
`fdisk_add_partition` with one. -/
def handedSectors (takes : PartitionAttributes → Bool) (p : RPIparted)
    (attrs : PartitionAttributes) : Option ℕ :=
  if attrs.typeId = "" ∨ attrs.sizeBytes = 0 ∨ p.grain / p.sectorSize = 0 ∨ takes attrs = false then
    none
  else some (p.sizeSectors attrs.sizeBytes)

variable {takes : PartitionAttributes → Bool} {p : RPIparted} {attrs : PartitionAttributes} {n : ℕ}

/-- It is the number that is added. -/
theorem appendPartition_of_handed (h : p.handedSectors takes attrs = some n) :
    p.appendPartition takes attrs = some (p.addPartition n) := by
  unfold handedSectors at h
  split_ifs at h with hno
  simp only [not_or, Bool.not_eq_false] at hno
  obtain ⟨htype, hsize, hgrain, htakes⟩ := hno
  unfold appendPartition
  rw [if_neg htype, if_neg (fun h => hgrain h.2), if_neg (by simp [htakes]), if_neg hsize]
  exact congrArg (fun n => some (p.addPartition n)) (Option.some.inj h)

/-- The numbers of sectors, in whole grains, that hold a size. -/
def Holds (p : RPIparted) (sizeBytes : ℕ) : Set ℕ :=
  {n | sizeBytes ≤ n * p.sectorSize ∧ p.grain / p.sectorSize ∣ n}

theorem isLeast_alignUpNat (hs : 0 < p.sectorSize) (hg : 0 < p.grain / p.sectorSize)
    (sizeBytes : ℕ) :
    IsLeast (p.Holds sizeBytes)
      (alignUpNat ((sizeBytes + p.sectorSize - 1) / p.sectorSize) (p.grain / p.sectorSize)) := by
  refine ⟨⟨?_, dvd_alignUpNat _ _⟩, fun m hm => alignUpNat_le_of_dvd hm.2 ?_⟩
  · exact (le_alignUpNat hs).trans (Nat.mul_le_mul_right _ (le_alignUpNat hg))
  · have hlt : sizeBytes + p.sectorSize - 1 < (m + 1) * p.sectorSize := by
      have := hm.1
      rw [Nat.add_one_mul]
      omega
    exact Nat.lt_succ_iff.1 ((Nat.div_lt_iff_lt_mul hs).2 hlt)

/-- Neither of the two sums goes over 64 bits. -/
def SumsFit (p : RPIparted) (sizeBytes : ℕ) : Prop :=
  sizeBytes + p.sectorSize ≤ 2 ^ 64 ∧ (p.sectorSize = 1 → sizeBytes + p.grain ≤ 2 ^ 64)

section

variable {sizeBytes : ℕ} (hs : 0 < p.sectorSize) (hgrain : 0 < p.grain) (hmax : p.grain < 2 ^ 64)
  (hd : p.sectorSize ∣ p.grain) (hsize : sizeBytes < 2 ^ 64)

include hs hgrain hmax hd hsize

/-- With room for the sums, the rounding is that of numbers without bound. -/
theorem sizeSectors_of_sumsFit (h : p.SumsFit sizeBytes) :
    p.sizeSectors sizeBytes =
      alignUpNat ((sizeBytes + p.sectorSize - 1) / p.sectorSize) (p.grain / p.sectorSize) := by
  have hle : p.sectorSize ≤ p.grain := Nat.le_of_dvd hgrain hd
  have hsum : wrap (sizeBytes + p.sectorSize + (2 ^ 64 - 1)) = sizeBytes + p.sectorSize - 1 := by
    have := h.1
    unfold wrap
    omega
  rw [sizeSectors, hsum, alignUp64_eq (Nat.div_pos hle hs)]
  obtain ⟨g, hg⟩ := hd
  rw [hg, Nat.mul_div_cancel_left _ hs]
  by_cases hone : p.sectorSize = 1
  · have := h.2 hone
    rw [hone, Nat.one_mul] at hg
    rw [hone, Nat.div_one, Nat.add_sub_cancel, ← hg]
    exact this
  · have hc := Nat.div_mul_le_self (sizeBytes + p.sectorSize - 1) p.sectorSize
    have htwo : 2 * ((sizeBytes + p.sectorSize - 1) / p.sectorSize + g) ≤
        p.sectorSize * ((sizeBytes + p.sectorSize - 1) / p.sectorSize + g) :=
      Nat.mul_le_mul_right _ (by omega)
    have := h.1
    rw [Nat.mul_add p.sectorSize, Nat.mul_comm p.sectorSize (_ / _), ← hg] at htwo
    omega

/-- A sum that goes over leaves fewer sectors than the size has. -/
theorem sizeSectors_lt_of_not_sumsFit (hpos : 0 < sizeBytes) (h : ¬ p.SumsFit sizeBytes) :
    p.sizeSectors sizeBytes * p.sectorSize < sizeBytes := by
  have hle : p.sectorSize ≤ p.grain := Nat.le_of_dvd hgrain hd
  by_cases hfirst : sizeBytes + p.sectorSize ≤ 2 ^ 64
  · obtain ⟨hone, hover⟩ : p.sectorSize = 1 ∧ ¬ sizeBytes + p.grain ≤ 2 ^ 64 :=
      Classical.not_imp.1 (not_and.1 h hfirst)
    have hsum : wrap (sizeBytes + 1 + (2 ^ 64 - 1)) = sizeBytes := by
      unfold wrap
      omega
    have hsum' : wrap (sizeBytes + p.grain + (2 ^ 64 - 1)) = sizeBytes + p.grain - 1 - 2 ^ 64 := by
      unfold wrap
      omega
    rw [sizeSectors, hone, hsum, Nat.div_one, Nat.div_one, alignUp64, hsum', Nat.mul_one]
    have hround := Nat.div_mul_le_self (sizeBytes + p.grain - 1 - 2 ^ 64) p.grain
    exact lt_of_le_of_lt ((wrap_le _).trans hround) (by omega)
  · have hsum : wrap (sizeBytes + p.sectorSize + (2 ^ 64 - 1)) < p.sectorSize := by
      unfold wrap
      omega
    have hg := Nat.div_pos hle hs
    have hzero : alignUp64 0 (p.grain / p.sectorSize) = 0 := by
      have hbound : p.grain / p.sectorSize < 2 ^ 64 := lt_of_le_of_lt (Nat.div_le_self _ _) hmax
      rw [alignUp64_eq hg (by omega), alignUpNat, Nat.zero_add, Nat.div_eq_of_lt (by omega),
        Nat.zero_mul]
    have hsectors : p.sizeSectors sizeBytes = 0 := by
      rw [sizeSectors, Nat.div_eq_of_lt hsum, hzero]
    rw [hsectors, Nat.zero_mul]
    exact hpos

theorem sizeSectors_isLeast_iff (hpos : 0 < sizeBytes) :
    IsLeast (p.Holds sizeBytes) (p.sizeSectors sizeBytes) ↔ p.SumsFit sizeBytes := by
  constructor
  · intro h
    by_contra hno
    exact absurd h.1.1
      (Nat.not_le.2 (sizeSectors_lt_of_not_sumsFit hs hgrain hmax hd hsize hpos hno))
  · intro h
    rw [sizeSectors_of_sumsFit hs hgrain hmax hd hsize h]
    exact isLeast_alignUpNat hs (Nat.div_pos (Nat.le_of_dvd hgrain hd) hs) sizeBytes

end

/-- The least number of sectors is handed to libfdisk for a size exactly if both sums fit, or the
request is refused for its type or its names. -/
theorem append_size_sound_iff (takes : PartitionAttributes → Bool) (p : RPIparted)
    (attrs : PartitionAttributes) (hs : 0 < p.sectorSize) (hgrain : 0 < p.grain)
    (hmax : p.grain < 2 ^ 64) (hd : p.sectorSize ∣ p.grain) (hpos : 0 < attrs.sizeBytes)
    (hsize : attrs.sizeBytes < 2 ^ 64) :
    (∀ n, p.handedSectors takes attrs = some n → IsLeast (p.Holds attrs.sizeBytes) n) ↔
      (attrs.typeId ≠ "" → takes attrs = true → p.SumsFit attrs.sizeBytes) := by
  have hgrains : p.grain / p.sectorSize ≠ 0 :=
    (Nat.div_pos (Nat.le_of_dvd hgrain hd) hs).ne'
  rw [← sizeSectors_isLeast_iff hs hgrain hmax hd hsize hpos]
  unfold handedSectors
  constructor
  · intro h htype htakes
    exact h _ (if_neg (by simp [htype, htakes, hpos.ne', hgrains]))
  · intro h n hn
    split_ifs at hn with hno
    simp only [not_or, Bool.not_eq_false] at hno
    rw [← Option.some.inj hn]
    exact h hno.1 hno.2.2.2

/-- A disk as `oem partapp` opens it, with sectors of 512 bytes. -/
def sampleDisk : RPIparted := openDevice 512 (4 * 1024) 1000000

def sampleRequest (sizeBytes : ℕ) : PartitionAttributes :=
  { sizeBytes, typeId := FastbootDevice.mapCode "linux" }

/-- Five megabytes get two grains of four. -/
theorem append_size_five_mib :
    IsLeast (sampleDisk.Holds (5 * 2 ^ 20)) 16384 := by
  refine (append_size_sound_iff (fun _ => true) sampleDisk (sampleRequest (5 * 2 ^ 20))
    (by decide) (by decide) (by decide +kernel) (by decide +kernel) (by decide) (by decide)).2
    (fun _ _ => ⟨by decide +kernel, by decide⟩) 16384 (by decide +kernel)

/-- `oem partapp` asks for the size that it has parsed. -/
theorem trace_oemCmdPartapp {text : String} {n : ℕ} (h : parseUint maxUint64 text = some n)
    (device code : String) (d : FastbootDevice) :
    Trace (FastbootDevice.oemCmdPartapp ["oem", "partapp", device, code, text]) d
      [⟨.query (.openDevice ("/dev/" ++ device)), .ok true⟩,
        ⟨.query (.appendPartition (FastbootDevice.mapCode code) n), .ok true⟩] none := by
  unfold FastbootDevice.oemCmdPartapp
  rw [if_neg (by simp), FastbootDevice.arg_of_lt (by simp), pure_bind,
    FastbootDevice.arg_of_lt (by simp), pure_bind]
  refine FastbootDevice.trace_ask.2 ?_
  have hsize : FastbootDevice.argIf (["oem", "partapp", device, code, text].length = 5)
      ["oem", "partapp", device, code, text] 4 = pure (some text) := rfl
  rw [if_neg (by simp), hsize, pure_bind, Option.elim_some, h]
  exact FastbootDevice.trace_ask.2 (.cut _ _)

/-- The largest size that `oem partapp` parses becomes a partition of no sectors. -/
theorem partapp_size_wraps :
    parseUint maxUint64 "18446744073709551615" = some (2 ^ 64 - 1) ∧
    (∃ d t r a, Trace (FastbootDevice.oemCmdPartapp
        ["oem", "partapp", "mmcblk0", "linux", "18446744073709551615"]) d t r ∧
      ⟨.query (.appendPartition (sampleRequest (2 ^ 64 - 1)).typeId (2 ^ 64 - 1)), a⟩ ∈ t) ∧
    sampleDisk.handedSectors (fun _ => true) (sampleRequest (2 ^ 64 - 1)) = some 0 ∧
    ¬ IsLeast (sampleDisk.Holds (2 ^ 64 - 1)) 0 := by
  have hparse : parseUint maxUint64 "18446744073709551615" = some (2 ^ 64 - 1) := by
    decide +kernel
  refine ⟨hparse, ⟨{}, _, none, .ok true, trace_oemCmdPartapp hparse "mmcblk0" "linux" {}, ?_⟩,
    by decide +kernel, fun h => ?_⟩
  · exact List.mem_cons_of_mem _ (List.mem_singleton_self _)
  · have := h.1.1
    rw [Nat.zero_mul] at this
    exact absurd this (by decide)

end RPIparted

end RpiFastbootd
