import Mathlib.Algebra.Order.Floor.Defs
import Mathlib.Data.Nat.ModEq
import Mathlib.Tactic.Ring

/-!
# Arithmetic modulo `2 ^ 64`

Unsigned 64-bit sums kept as natural numbers: `wrap n` is what a 64-bit register holds of `n`.
A sum of wrapped terms is the wrapped sum (`foldlM_wrap_add`), and rounding up to a multiple is
the same in the register and in `ℕ` as long as the intermediate sum fits (`alignUp64_eq`).
-/

namespace RpiFastbootd

/-- The number a 64-bit unsigned register holds of `n`. -/
def wrap (n : ℕ) : ℕ := n % 2 ^ 64

theorem wrap_lt (n : ℕ) : wrap n < 2 ^ 64 := Nat.mod_lt _ (by norm_num)

theorem wrap_of_lt {n : ℕ} (h : n < 2 ^ 64) : wrap n = n := Nat.mod_eq_of_lt h

theorem wrap_le (n : ℕ) : wrap n ≤ n := Nat.mod_le _ _

@[simp] theorem wrap_wrap (n : ℕ) : wrap (wrap n) = wrap n := Nat.mod_mod _ _

@[simp] theorem wrap_wrap_add (m n : ℕ) : wrap (wrap m + n) = wrap (m + n) := by
  simp [wrap, Nat.add_mod]

@[simp] theorem wrap_add_wrap (m n : ℕ) : wrap (m + wrap n) = wrap (m + n) := by
  simp [wrap, Nat.add_mod]

theorem wrap_eq_wrap_iff {m n : ℕ} : wrap m = wrap n ↔ (2 : ℤ) ^ 64 ∣ (m : ℤ) - n := by
  have := @Nat.modEq_iff_dvd (2 ^ 64) n m
  rw [Nat.ModEq] at this
  rw [wrap, wrap, eq_comm, this]
  norm_num

/-- An accumulator that adds terms in a 64-bit register holds the wrapped sum. -/
theorem foldlM_wrap_add {α : Type} {f : α → Option ℕ} {g : α → ℕ} {l : List α}
    (h : ∀ x ∈ l, f x = some (g x)) (a : ℕ) :
    l.foldlM (fun t x => do return wrap (t + (← f x))) (wrap a) =
      some (wrap (a + (l.map g).sum)) := by
  induction l generalizing a with
  | nil => simp
  | cons x l ih =>
    rw [List.forall_mem_cons] at h
    rw [List.foldlM_cons, h.1]
    change l.foldlM _ (wrap (wrap a + g x)) = _
    rw [wrap_wrap_add, ih h.2, List.map_cons, List.sum_cons, Nat.add_assoc]

theorem foldlM_isSome {α : Type} {f : α → Option ℕ} {l : List α} (h : ∀ x ∈ l, (f x).isSome)
    (a : ℕ) : ∃ n, l.foldlM (fun t x => do return wrap (t + (← f x))) a = some n := by
  induction l generalizing a with
  | nil => exact ⟨a, rfl⟩
  | cons x l ih =>
    rw [List.forall_mem_cons] at h
    obtain ⟨m, hm⟩ := Option.isSome_iff_exists.1 h.1
    rw [List.foldlM_cons, hm]
    exact ih h.2 (wrap (a + m))

/-- Round up to a multiple of `a`, in unbounded numbers; `0` when `a` is `0`. -/
def alignUpNat (n a : ℕ) : ℕ := (n + a - 1) / a * a

/-- `((value + alignment - 1) / alignment) * alignment` in a 64-bit register. -/
def alignUp64 (value alignment : ℕ) : ℕ :=
  wrap (wrap (value + alignment + (2 ^ 64 - 1)) / alignment * alignment)

theorem alignUp64_eq {value alignment : ℕ} (ha : 0 < alignment)
    (h : value + alignment ≤ 2 ^ 64) : alignUp64 value alignment = alignUpNat value alignment := by
  have hs : wrap (value + alignment + (2 ^ 64 - 1)) = value + alignment - 1 := by
    unfold wrap
    omega
  unfold alignUp64 alignUpNat
  rw [hs, wrap_of_lt]
  have := Nat.div_mul_le_self (value + alignment - 1) alignment
  omega

theorem le_alignUpNat {n a : ℕ} (ha : 0 < a) : n ≤ alignUpNat n a := by
  have h := Nat.div_add_mod (n + a - 1) a
  have hm := Nat.mod_lt (n + a - 1) ha
  unfold alignUpNat
  rw [Nat.mul_comm]
  omega

theorem dvd_alignUpNat (n a : ℕ) : a ∣ alignUpNat n a := Nat.dvd_mul_left _ _

theorem alignUpNat_le_of_dvd {n a m : ℕ} (hd : a ∣ m) (h : n ≤ m) : alignUpNat n a ≤ m := by
  obtain ⟨k, rfl⟩ := hd
  rcases Nat.eq_zero_or_pos a with rfl | ha
  · simp [alignUpNat]
  have hlt : n + a - 1 < (k + 1) * a := by
    rw [Nat.add_one_mul, Nat.mul_comm]
    omega
  rw [alignUpNat, Nat.mul_comm]
  exact Nat.mul_le_mul_left a (Nat.lt_succ_iff.1 ((Nat.div_lt_iff_lt_mul ha).2 hlt))

theorem alignUpNat_lt {n a : ℕ} (ha : 0 < a) : alignUpNat n a < n + a := by
  have := Nat.div_mul_le_self (n + a - 1) a
  unfold alignUpNat
  omega

/-- Rounding up to units and then to a multiple of units is rounding up to that multiple. -/
theorem alignUpNat_units {n unit a : ℕ} (hu : 0 < unit) (ha : 0 < a) (hd : unit ∣ a) :
    alignUpNat ((n + unit - 1) / unit) (a / unit) * unit = alignUpNat n a := by
  obtain ⟨g, rfl⟩ := hd
  have hg : 0 < g := Nat.pos_of_mul_pos_left ha
  have hsum : (n + unit - 1) / unit + g - 1 = (n + unit * g - 1) / unit := by
    have hadd : n + unit * g - 1 = n + unit - 1 + unit * (g - 1) := by
      obtain ⟨k, rfl⟩ : ∃ k, g = k + 1 := ⟨g - 1, by omega⟩
      rw [Nat.add_sub_cancel, Nat.mul_add, Nat.mul_one]
      omega
    rw [hadd, Nat.add_mul_div_left _ _ hu, Nat.add_sub_assoc hg]
  rw [Nat.mul_div_cancel_left _ hu, alignUpNat, alignUpNat, hsum, Nat.div_div_eq_div_mul]
  ring

theorem self_le_alignUpNat {n a : ℕ} (hn : 0 < n) : a ≤ alignUpNat n a := by
  rcases Nat.eq_zero_or_pos a with rfl | ha
  · exact Nat.zero_le _
  · have h : 1 ≤ (n + a - 1) / a := (Nat.one_le_div_iff ha).2 (by omega)
    exact Nat.le_mul_of_pos_left a h

end RpiFastbootd
