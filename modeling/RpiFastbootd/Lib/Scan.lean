import Mathlib.Algebra.Ring.Nat
import Mathlib.Tactic.Common

/-!
# Reading numbers and fields from text

What the text functions of the base library do: `Split`, `Join`, `ParseUint`, and the conversions
of `scanf` that the daemon uses.
-/

namespace RpiFastbootd

/-- The fields between the separators; there is always one. -/
def split (sep : Char) (s : String) : List String := (s.toList.splitOn sep).map String.ofList

theorem split_ne_nil (sep : Char) (s : String) : split sep s ≠ [] := by
  unfold split
  rw [Ne, List.map_eq_nil_iff]
  exact List.splitOn_ne_nil _ _

def isSpace (c : Char) : Bool :=
  c == ' ' || c == '\t' || c == '\n' || c == '\x0b' || c == '\x0c' || c == '\r'

def join (sep : String) (fields : List String) : String := sep.intercalate fields

/-- The value of a digit. -/
def digitValue (base : ℕ) (c : Char) : Option ℕ :=
  let value :=
    if '0' ≤ c ∧ c ≤ '9' then some (c.toNat - '0'.toNat)
    else if 'a' ≤ c ∧ c ≤ 'f' then some (c.toNat - 'a'.toNat + 10)
    else if 'A' ≤ c ∧ c ≤ 'F' then some (c.toNat - 'A'.toNat + 10)
    else none
  value.filter (· < base)

/-- The number that a text of digits writes; there must be one digit at least. -/
def number (base : ℕ) (digits : List Char) : Option ℕ :=
  if digits = [] then none
  else digits.foldlM (fun n c => (digitValue base c).map (n * base + ·)) 0

/-- `ParseUint`: decimal, or hexadecimal after `0x`, at most `max`. -/
def parseUint (max : ℕ) (s : String) : Option ℕ :=
  let value := match s.toList.dropWhile isSpace with
    | '-' :: _ => none
    | '0' :: 'x' :: digits => number 16 digits
    | '0' :: 'X' :: digits => number 16 digits
    | '+' :: digits => number 10 digits
    | digits => number 10 digits
  value.filter (· ≤ max)

/-- The conversion `%2x` of `sscanf` into an `unsigned int`. -/
def scanHex2 (s : List Char) : Option ℕ :=
  match (s.dropWhile isSpace).take 2 with
  | ['0', 'x'] => none
  | ['0', 'X'] => none
  | ['+', c] => digitValue 16 c
  | ['-', c] => (digitValue 16 c).map fun n => (2 ^ 32 - n) % 2 ^ 32
  | digits => number 16 (digits.takeWhile fun c => (digitValue 16 c).isSome)

end RpiFastbootd
