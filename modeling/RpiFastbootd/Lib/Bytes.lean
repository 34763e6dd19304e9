import Mathlib.Tactic.Common

/-!
# Bytes and little-endian words
-/

namespace RpiFastbootd

abbrev Byte := BitVec 8

abbrev Word := BitVec 32

/-- The little-endian half word at a position; bytes behind the end do not matter. -/
def le16 (buf : List Byte) (i : ℕ) : BitVec 16 :=
  (buf.getD (i + 1) 0 ++ buf.getD i 0 : BitVec 16)

/-- The little-endian word at a position; bytes behind the end do not matter. -/
def le32 (buf : List Byte) (i : ℕ) : Word :=
  (buf.getD (i + 3) 0 ++ buf.getD (i + 2) 0 ++ buf.getD (i + 1) 0 ++ buf.getD i 0 : BitVec 32)

def slice (l : List Byte) (pos len : ℕ) : List Byte := (l.drop pos).take len

end RpiFastbootd
