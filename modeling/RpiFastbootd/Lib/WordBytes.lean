import Mathlib.Algebra.Ring.Nat
import RpiFastbootd.Lib.Bytes

/-!
# Writing little-endian words

`leBytes width n` are the bytes of a number in a field of `width` bytes, the lowest byte first.  A
half word or a word is read back as it was written.
-/

namespace RpiFastbootd

/-- The bytes of a number in a field of a width, the lowest byte first. -/
def leBytes : ℕ → ℕ → List Byte
  | 0, _ => []
  | width + 1, n => BitVec.ofNat 8 n :: leBytes width (n / 256)

@[simp] theorem length_leBytes (width n : ℕ) : (leBytes width n).length = width := by
  induction width generalizing n with
  | zero => rfl
  | succ width ih => rw [leBytes, List.length_cons, ih]

theorem toNat_append_eq {m n : ℕ} (x : BitVec m) (y : BitVec n) :
    (x ++ y).toNat = x.toNat * 2 ^ n + y.toNat := by
  rw [BitVec.toNat_append, ← Nat.shiftLeft_add_eq_or_of_lt y.isLt, Nat.shiftLeft_eq]

theorem le16_leBytes {n : ℕ} (h : n < 2 ^ 16) : (le16 (leBytes 2 n) 0).toNat = n := by
  have hbytes : le16 (leBytes 2 n) 0 =
      (BitVec.ofNat 8 (n / 256) ++ BitVec.ofNat 8 n : BitVec 16) := rfl
  rw [hbytes, toNat_append_eq]
  simp only [BitVec.toNat_ofNat]
  omega

theorem le32_leBytes {n : ℕ} (h : n < 2 ^ 32) : (le32 (leBytes 4 n) 0).toNat = n := by
  have hbytes : le32 (leBytes 4 n) 0 =
      (BitVec.ofNat 8 (n / 256 / 256 / 256) ++ BitVec.ofNat 8 (n / 256 / 256) ++
        BitVec.ofNat 8 (n / 256) ++ BitVec.ofNat 8 n : BitVec 32) := rfl
  rw [hbytes, toNat_append_eq, toNat_append_eq, toNat_append_eq]
  simp only [BitVec.toNat_ofNat]
  omega

end RpiFastbootd
