import Mathlib.Data.Nat.Digits.Defs
import Mathlib.Data.List.Infix
import Mathlib.Data.Nat.ModEq
import Mathlib.Tactic.Ring
import RpiFastbootd.Lib.Bytes
import RpiFastbootd.Lib.Outcome

/-!
# The version of a bootloader image

`eeprom::Write` refuses an image whose `MFG_VER` is below the minimum of the board.  `ImageMfgVer`
looks for the first tag with a digit behind it and adds up the digits in 32 bits, so that it has the
number of the image modulo 2^32 (`imageMfgVer_toNat`): never more than it, and less from 2^32 on.
-/

namespace RpiFastbootd

namespace Eeprom

def kMinImageSize : ℕ := 64 * 1024

def kMaxImageSize : ℕ := 16 * 1024 * 1024

/-- The characters of `kPrefix` without its terminator. -/
def kPrefix : List Byte := "MFG_VER: ".toList.map fun c => BitVec.ofNat 8 c.toNat

def IsDigit (ch : Byte) : Prop := 0x30#8 ≤ ch ∧ ch ≤ 0x39#8

instance (ch : Byte) : Decidable (IsDigit ch) := inferInstanceAs (Decidable (_ ∧ _))

/-- `ReadDtUInt32` of the contents of a property, if it can be read. -/
def readDtUInt32 (raw : Option (List Byte)) : Option Word :=
  match raw with
  | some (b₀ :: b₁ :: b₂ :: b₃ :: _) => some (b₀ ++ b₁ ++ b₂ ++ b₃ : BitVec 32)
  | _ => none

/-- `BoardMinBootVer`, of the contents of `rpi-min-boot-ver`. -/
def boardMinBootVer (raw : Option (List Byte)) : Word := (readDtUInt32 raw).getD 0

/-- The loop over the digits: the value in 32 bits, and whether there was a digit. -/
def digitLoop : List Byte → Word → Bool → Word × Bool
  | [], value, foundDigit => (value, foundDigit)
  | ch :: rest, value, foundDigit =>
    if ch < 0x30#8 ∨ 0x39#8 < ch then (value, foundDigit)
    else digitLoop rest (value * 10#32 + (ch - 0x30#8).setWidth 32) true

/-- `ImageMfgVer`: the loop over the positions, by what is left of the image.  The prefix has a
terminator in C, so that there is always a byte behind a tag that is found. -/
def imageMfgVer : List Byte → Word
  | [] => 0
  | b :: rest =>
    if (b :: rest).length < kPrefix.length + 1 then 0
    else if (b :: rest).take kPrefix.length ≠ kPrefix then imageMfgVer rest
    else
      let (value, foundDigit) := digitLoop ((b :: rest).drop kPrefix.length) 0 false
      if foundDigit = true then value else imageMfgVer rest

def checkMinBootVer (raw : Option (List Byte)) (image : List Byte) : Except String Unit :=
  let boardMin := boardMinBootVer raw
  if boardMin = 0 then .ok ()
  else
    let imageVer := imageMfgVer image
    if imageVer < boardMin then
      .error ("bootloader image MFG_VER " ++ toString imageVer.toNat ++
        " is older than board minimum " ++ toString boardMin.toNat)
    else .ok ()

/-- The chip behind a device: what becomes of the calls of `FlashSession::Open` and of the write. -/
structure FlashChip where
  present : Bool := true
  init : Bool := true
  programmer : Bool := true
  probe : Bool := true
  chipSize : ℕ
  imageWrite : List Byte → Bool

/-- `FlashSession::Open`, with the size of the chip. -/
def FlashChip.open (chip : FlashChip) (spidev : String) : Except String ℕ :=
  if chip.present = false then .error ("SPI device not present: " ++ spidev)
  else if chip.init = false then .error "flashrom_init failed"
  else if chip.programmer = false then .error ("linux_spi programmer init failed for " ++ spidev)
  else if chip.probe = false then .error ("no SPI flash chip detected on " ++ spidev)
  else if chip.chipSize < kMinImageSize ∨ kMaxImageSize < chip.chipSize then
    .error ("probed flash size " ++ toString chip.chipSize ++ " is outside sanity bounds [" ++
      toString kMinImageSize ++ ".." ++ toString kMaxImageSize ++ "]")
  else .ok chip.chipSize

/-- `Write` from where the image has passed its checks. -/
def FlashChip.flash (chip : FlashChip) (spidev : String) (image : List Byte) :
    Except String Unit := do
  let chipSize ← chip.open spidev
  if image.length ≠ chipSize then
    throw ("image size " ++ toString image.length ++ " != probed flash size " ++ toString chipSize)
  if chip.imageWrite image = false then throw "flashrom_image_write failed"

/-- `Write`. -/
def write (chip : FlashChip) (raw : Option (List Byte)) (spidev : String) (image : List Byte) :
    Except String Unit := do
  if image.length < kMinImageSize ∨ kMaxImageSize < image.length then
    throw ("supplied image size " ++ toString image.length ++ " outside sanity bounds")
  checkMinBootVer raw image
  chip.flash spidev image

/-! ### The number of an image -/

/-- The number that a run of digits writes. -/
def decimalValue (digits : List Byte) : ℕ :=
  Nat.ofDigits 10 (digits.reverse.map fun ch => ch.toNat - 0x30)

/-- A tag with a digit behind it. -/
def Tagged (bytes : List Byte) : Prop :=
  kPrefix <+: bytes ∧ ∃ ch ∈ (bytes.drop kPrefix.length).head?, IsDigit ch

instance (bytes : List Byte) : Decidable (Tagged bytes) := inferInstanceAs (Decidable (_ ∧ _))

/-- The digits behind the first tag that has some, and zero if there is none. -/
def mfgVersion (image : List Byte) : ℕ :=
  (image.tails.find? fun bytes => decide (Tagged bytes)).elim 0 fun bytes =>
    decimalValue ((bytes.drop kPrefix.length).takeWhile fun ch => decide (IsDigit ch))

section

variable {ch : Byte} {bytes image : List Byte} {raw : Option (List Byte)}

@[simp] theorem decimalValue_nil : decimalValue [] = 0 := rfl

theorem decimalValue_cons (ch : Byte) (digits : List Byte) :
    decimalValue (ch :: digits) =
      (ch.toNat - 0x30) * 10 ^ digits.length + decimalValue digits := by
  rw [decimalValue, List.reverse_cons, List.map_append, Nat.ofDigits_append, List.length_map,
    List.length_reverse, List.map_singleton, Nat.ofDigits_singleton, Nat.add_comm, Nat.mul_comm]
  rfl

theorem toNat_digit (h : IsDigit ch) : ((ch - 0x30#8).setWidth 32).toNat = ch.toNat - 0x30 := by
  obtain ⟨hlow, -⟩ := h
  bv_omega

/-- The loop adds up the digits in front, modulo 2^32. -/
theorem digitLoop_toNat (bytes : List Byte) (value : Word) (found : Bool) :
    (digitLoop bytes value found).1.toNat =
      (value.toNat * 10 ^ (bytes.takeWhile fun ch => decide (IsDigit ch)).length +
        decimalValue (bytes.takeWhile fun ch => decide (IsDigit ch))) % 2 ^ 32 := by
  induction bytes generalizing value found with
  | nil => simp [digitLoop, Nat.mod_eq_of_lt value.isLt]
  | cons ch rest ih =>
    unfold digitLoop
    by_cases h : IsDigit ch
    · have hno : ¬ (ch < 0x30#8 ∨ 0x39#8 < ch) := by
        obtain ⟨hlow, hhigh⟩ := h
        bv_omega
      have hstep : (value * 10#32 + (ch - 0x30#8).setWidth 32).toNat ≡
          value.toNat * 10 + (ch.toNat - 0x30) [MOD 2 ^ 32] := by
        rw [BitVec.toNat_add, BitVec.toNat_mul, toNat_digit h]
        exact (Nat.mod_modEq _ _).trans ((Nat.mod_modEq _ _).add_right _)
      rw [if_neg hno, ih, List.takeWhile_cons, if_pos (decide_eq_true h), decimalValue_cons,
        List.length_cons]
      exact ((hstep.mul_right _).add_right _).trans (congrArg (· % 2 ^ 32) (by ring))
    · have hout : ch < 0x30#8 ∨ 0x39#8 < ch := by
        by_contra hin
        exact h ⟨by bv_omega, by bv_omega⟩
      rw [if_pos hout, List.takeWhile_cons, if_neg (by simpa using h)]
      simp [Nat.mod_eq_of_lt value.isLt]

theorem digitLoop_true (bytes : List Byte) (value : Word) :
    (digitLoop bytes value true).2 = true := by
  induction bytes generalizing value with
  | nil => rfl
  | cons ch rest ih =>
    unfold digitLoop
    split_ifs
    · rfl
    · exact ih _

theorem digitLoop_found (bytes : List Byte) (value : Word) :
    (digitLoop bytes value false).2 = true ↔ ∃ ch ∈ bytes.head?, IsDigit ch := by
  cases bytes with
  | nil => simp [digitLoop]
  | cons ch rest =>
    unfold digitLoop
    simp only [List.head?_cons, Option.mem_some_iff, exists_eq_left']
    by_cases h : ch < 0x30#8 ∨ 0x39#8 < ch
    · rw [if_pos h]
      refine iff_of_false (fun h => (by cases h)) fun hdigit => ?_
      obtain ⟨hlow, hhigh⟩ := hdigit
      bv_omega
    · rw [if_neg h]
      exact iff_of_true (digitLoop_true _ _) ⟨by bv_omega, by bv_omega⟩

theorem mfgVersion_cons (b : Byte) (rest : List Byte) :
    mfgVersion (b :: rest) =
      if Tagged (b :: rest) then
        decimalValue (((b :: rest).drop kPrefix.length).takeWhile fun ch => decide (IsDigit ch))
      else mfgVersion rest := by
  unfold mfgVersion
  rw [List.tails_cons, List.find?_cons]
  by_cases h : Tagged (b :: rest)
  · rw [if_pos h, decide_eq_true h]
    rfl
  · rw [if_neg h, decide_eq_false h]

theorem Tagged.length_lt (h : Tagged bytes) : kPrefix.length < bytes.length := by
  obtain ⟨-, ch, hch, -⟩ := h
  by_contra hle
  rw [List.drop_of_length_le (not_lt.1 hle)] at hch
  cases hch

theorem mfgVersion_of_short (h : image.length < kPrefix.length + 1) : mfgVersion image = 0 := by
  have hnone : (image.tails.find? fun bytes => decide (Tagged bytes)) = none := by
    refine List.find?_eq_none.2 fun bytes hbytes htagged => ?_
    have hlt := (of_decide_eq_true htagged).length_lt
    have hle := ((List.mem_tails _ _).1 hbytes).length_le
    omega
  rw [mfgVersion, hnone]
  rfl

/-- `ImageMfgVer` has the number of the image in 32 bits. -/
theorem imageMfgVer_toNat (image : List Byte) :
    (imageMfgVer image).toNat = mfgVersion image % 2 ^ 32 := by
  induction image with
  | nil =>
    rw [mfgVersion_of_short (by decide)]
    rfl
  | cons b rest ih =>
    unfold imageMfgVer
    by_cases hshort : (b :: rest).length < kPrefix.length + 1
    · rw [if_pos hshort, mfgVersion_of_short hshort]
      rfl
    rw [if_neg hshort, mfgVersion_cons]
    by_cases hprefix : (b :: rest).take kPrefix.length = kPrefix
    · have htagged : Tagged (b :: rest) ↔
          (digitLoop ((b :: rest).drop kPrefix.length) 0 false).2 = true := by
        rw [digitLoop_found]
        exact and_iff_right (List.prefix_iff_eq_take.2 hprefix.symm)
      rw [if_neg (not_not.2 hprefix)]
      dsimp only
      by_cases h : Tagged (b :: rest)
      · rw [if_pos (htagged.1 h), if_pos h, digitLoop_toNat]
        simp
      · rw [if_neg (mt htagged.2 h), if_neg h, ih]
    · rw [if_pos hprefix, if_neg fun h => hprefix (List.prefix_iff_eq_take.1 h.1).symm, ih]

/-! ### The minimum of the board -/

/-- What the gate is for: the number of the image is read exactly, and an image is let through
exactly if the board has no minimum or the number is not below it. -/
structure MinVerSound (raw : Option (List Byte)) (image : List Byte) : Prop where
  version : (imageMfgVer image).toNat = mfgVersion image
  gate : checkMinBootVer raw image = .ok () ↔
    boardMinBootVer raw = 0 ∨ (boardMinBootVer raw).toNat ≤ mfgVersion image

theorem checkMinBootVer_ok_iff :
    checkMinBootVer raw image = .ok () ↔
      boardMinBootVer raw = 0 ∨ boardMinBootVer raw ≤ imageMfgVer image := by
  unfold checkMinBootVer
  by_cases hzero : boardMinBootVer raw = 0
  · simp [hzero]
  · by_cases hlt : imageMfgVer image < boardMinBootVer raw
    · simp [hlt, BitVec.not_le.2 hlt]
    · simp [hlt, BitVec.not_lt.1 hlt]

/-- Whatever its number, no image below the minimum is let through. -/
theorem min_le_of_checkMinBootVer (h : checkMinBootVer raw image = .ok ()) :
    (boardMinBootVer raw).toNat ≤ mfgVersion image := by
  obtain hzero | hle := checkMinBootVer_ok_iff.1 h
  · rw [hzero]
    exact Nat.zero_le _
  · rw [BitVec.le_def, imageMfgVer_toNat] at hle
    exact hle.trans (Nat.mod_le _ _)

/-- What is written has passed both checks. -/
theorem write_ok {chip : FlashChip} {spidev : String} (h : write chip raw spidev image = .ok ()) :
    kMinImageSize ≤ image.length ∧ image.length ≤ kMaxImageSize ∧
      (boardMinBootVer raw).toNat ≤ mfgVersion image := by
  unfold write at h
  by_cases hsize : image.length < kMinImageSize ∨ kMaxImageSize < image.length
  · rw [if_pos hsize] at h
    cases h
  rw [if_neg hsize] at h
  obtain ⟨_, hcheck, -⟩ := bind_eq_ok_iff.1 h
  exact ⟨not_lt.1 fun hlt => hsize (.inl hlt), not_lt.1 fun hlt => hsize (.inr hlt),
    min_le_of_checkMinBootVer hcheck⟩

/-- The gate is sound exactly for the images whose number fits into 32 bits. -/
theorem min_boot_ver_sound_iff (raw : Option (List Byte)) (image : List Byte) :
    MinVerSound raw image ↔ mfgVersion image < 2 ^ 32 := by
  have hversion := imageMfgVer_toNat image
  constructor
  · intro h
    rw [h.version] at hversion
    rw [hversion]
    exact Nat.mod_lt _ (Nat.two_pow_pos 32)
  · intro h
    rw [Nat.mod_eq_of_lt h] at hversion
    refine ⟨hversion, ?_⟩
    rw [checkMinBootVer_ok_iff, BitVec.le_def, hversion]

/-- An image of the given number. -/
def sampleImage (digits : String) : List Byte :=
  [0xff, 0x4d] ++ kPrefix ++ [0x78] ++ kPrefix ++
    (digits.toList.map fun c => BitVec.ofNat 8 c.toNat) ++ [0]

/-- The number 2^32 is read as zero, and an image that has it is refused by a board with the minimum
five. -/
theorem large_version_refused :
    mfgVersion (sampleImage "4294967296") = 4294967296 ∧
    imageMfgVer (sampleImage "4294967296") = 0 ∧
    checkMinBootVer (some [0, 0, 0, 5]) (sampleImage "4294967296") ≠ .ok () ∧
    ¬ MinVerSound (some [0, 0, 0, 5]) (sampleImage "4294967296") := by
  have hnumber : mfgVersion (sampleImage "4294967296") = 4294967296 := by decide +kernel
  have hread : imageMfgVer (sampleImage "4294967296") = 0 := by decide +kernel
  refine ⟨hnumber, hread, by decide +kernel, fun h => ?_⟩
  have hversion := h.version
  rw [hnumber, hread] at hversion
  cases hversion

end

end Eeprom

end RpiFastbootd
