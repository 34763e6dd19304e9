import Mathlib.Data.String.Basic
import RpiFastbootd.Lib.Scan

/-!
# Decimal text

What later proofs need of the decimal text of a natural number: it is never empty, it is made of
digits, none of which is a blank, and it determines the number.
-/

namespace RpiFastbootd

theorem isDigit_of_mem_repr {n : ℕ} {c : Char} (h : c ∈ n.repr.toList) : c.isDigit := by
  rw [Nat.toList_repr] at h
  exact Nat.isDigit_of_mem_toDigits (by decide) le_rfl h

theorem not_isSpace_of_isDigit {c : Char} (h : c.isDigit) : isSpace c = false := by
  simp only [isSpace, Bool.or_eq_false_iff, beq_eq_false_iff_ne]
  refine ⟨⟨⟨⟨⟨?_, ?_⟩, ?_⟩, ?_⟩, ?_⟩, ?_⟩ <;> rintro rfl <;> exact absurd h (by decide)

theorem repr_injective : Function.Injective Nat.repr := by
  intro m n h
  have := congrArg (fun s => Nat.ofDigitChars 10 s.toList 0) h
  simpa only [Nat.toList_repr, Nat.ofDigitChars_ten_toDigits] using this

/-- A text with a character that is not a digit is no number. -/
theorem repr_ne {n : ℕ} {s : String} {c : Char} (hc : c ∈ s.toList) (hd : c.isDigit = false) :
    n.repr ≠ s := by
  rintro rfl
  rw [isDigit_of_mem_repr hc] at hd
  cases hd

end RpiFastbootd
