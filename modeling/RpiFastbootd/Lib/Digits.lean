import Mathlib.Algebra.Order.Ring.Nat
import RpiFastbootd.Lib.Scan

/-!
# Digits filled up to a width

The digits of a number in a base, with zeros in front up to a width, as `printf` writes them.  A
number that is put together from two parts is written part by part (`padded_append`), and a
hexadecimal digit is read back as the value that it was written for.
-/

namespace RpiFastbootd

def padded (base width n : ℕ) : List Char :=
  List.replicate (width - (Nat.toDigits base n).length) '0' ++ Nat.toDigits base n

section

variable {base n : ℕ}

theorem padded_one (h : n < base) : padded base 1 n = [n.digitChar] := by
  rw [padded, Nat.toDigits_of_lt_base h]
  rfl

/-- The last digit. -/
theorem padded_succ (hb : 1 < base) {width : ℕ} (hw : 0 < width) :
    padded base (width + 1) n = padded base width (n / base) ++ [(n % base).digitChar] := by
  unfold padded
  by_cases h : n < base
  · obtain ⟨w, rfl⟩ := Nat.exists_eq_succ_of_ne_zero hw.ne'
    rw [Nat.toDigits_of_lt_base h, Nat.div_eq_of_lt h, Nat.mod_eq_of_lt h, Nat.toDigits_zero]
    show List.replicate (w + 1) '0' ++ _ = List.replicate w '0' ++ ['0'] ++ _
    rw [List.replicate_succ']
  · rw [Nat.toDigits_of_base_le hb (Nat.le_of_not_lt h), List.length_append, List.length_singleton,
      Nat.add_sub_add_right, List.append_assoc]

/-- A number in two parts. -/
theorem padded_append (hb : 1 < base) {high low m : ℕ} {k : ℕ} (hk : 0 < k) (hm : 0 < m)
    (hlow : low < base ^ m) :
    padded base (k + m) (high * base ^ m + low) = padded base k high ++ padded base m low := by
  induction m, hm using Nat.le_induction generalizing low with
  | base =>
    rw [pow_one] at hlow ⊢
    rw [padded_succ hb hk, padded_one hlow, Nat.add_comm, Nat.add_mul_div_right _ _ (by omega),
      Nat.div_eq_of_lt hlow, Nat.zero_add, Nat.add_mul_mod_self_right, Nat.mod_eq_of_lt hlow]
  | succ m hm ih =>
    have hsplit : high * base ^ (m + 1) + low = low + high * base ^ m * base := by
      rw [pow_succ, Nat.mul_assoc, Nat.add_comm]
    have hlow' : low / base < base ^ m := Nat.div_lt_of_lt_mul (by rwa [pow_succ'] at hlow)
    rw [← Nat.add_assoc, padded_succ hb (by omega), hsplit, Nat.add_mul_div_right _ _ (by omega),
      Nat.add_mul_mod_self_right, Nat.add_comm (low / base), ih hlow', padded_succ hb hm,
      List.append_assoc]

theorem padded_split (hb : 1 < base) {k m : ℕ} (hk : 0 < k) (hm : 0 < m) :
    padded base (k + m) n = padded base k (n / base ^ m) ++ padded base m (n % base ^ m) := by
  rw [← padded_append hb hk hm (Nat.mod_lt _ (Nat.pow_pos (by omega))), Nat.div_add_mod']

/-- Two hexadecimal digits. -/
theorem padded_two {high low : ℕ} (hhigh : high < 16) (hlow : low < 16) :
    padded 16 2 (high * 16 + low) = [high.digitChar, low.digitChar] := by
  have h := @padded_append 16 (by decide) high low 1 1 Nat.one_pos Nat.one_pos (by rwa [pow_one])
  rw [pow_one, padded_one hhigh, padded_one hlow] at h
  exact h

end

/-! ### Hexadecimal digits -/

/-- A hexadecimal digit of either case. -/
def IsHexDigit (c : Char) : Prop := '0' ≤ c ∧ c ≤ '9' ∨ 'a' ≤ c ∧ c ≤ 'f' ∨ 'A' ≤ c ∧ c ≤ 'F'

instance (c : Char) : Decidable (IsHexDigit c) := by unfold IsHexDigit; infer_instance

theorem IsHexDigit.toNat_lt {c : Char} (h : IsHexDigit c) : c.toNat < 128 := by
  have hle : ∀ d : Char, d.toNat < 128 → c ≤ d → c.toNat < 128 := fun d hd hcd =>
    lt_of_le_of_lt (UInt32.le_iff_toNat_le.1 (Char.le_def.1 hcd)) hd
  obtain ⟨-, h⟩ | ⟨-, h⟩ | ⟨-, h⟩ := h
  · exact hle '9' (by decide) h
  · exact hle 'f' (by decide) h
  · exact hle 'F' (by decide) h

theorem isHexDigit_of_digitValue {base v : ℕ} {c : Char} (h : digitValue base c = some v) :
    IsHexDigit c := by
  unfold digitValue at h
  split_ifs at h with h₁ h₂ h₃
  · exact .inl h₁
  · exact .inr (.inl h₂)
  · exact .inr (.inr h₃)
  · cases h

/-- The value of a digit is written as the digit in lower case. -/
theorem IsHexDigit.map_digitValue {c : Char} (h : IsHexDigit c) :
    (digitValue 16 c).map Nat.digitChar = some c.toLower := by
  have hall : ∀ n < 128, IsHexDigit (Char.ofNat n) →
      (digitValue 16 (Char.ofNat n)).map Nat.digitChar = some (Char.ofNat n).toLower := by
    decide +kernel
  have := hall c.toNat h.toNat_lt
  rw [Char.ofNat_toNat] at this
  exact this h

theorem digitValue_isSome_iff {c : Char} : (digitValue 16 c).isSome ↔ IsHexDigit c := by
  constructor
  · intro h
    obtain ⟨v, hv⟩ := Option.isSome_iff_exists.1 h
    exact isHexDigit_of_digitValue hv
  · intro h
    rw [← Option.isSome_map, h.map_digitValue]
    rfl

/-- A digit that is read and written again is in lower case. -/
theorem digitChar_of_digitValue {c : Char} {v : ℕ} (h : digitValue 16 c = some v) :
    v.digitChar = c.toLower := by
  have hmap := (isHexDigit_of_digitValue h).map_digitValue
  rw [h] at hmap
  exact Option.some.inj hmap

theorem digitValue_lt {base v : ℕ} {c : Char} (h : digitValue base c = some v) : v < base := by
  unfold digitValue at h
  simpa using (Option.filter_eq_some_iff.1 h).2

theorem digitValue_digitChar : ∀ v < 16, digitValue 16 v.digitChar = some v := by decide

/-! ### Numbers of two digits -/

theorem number_pair {base u v : ℕ} {c d : Char} (hc : digitValue base c = some u)
    (hd : digitValue base d = some v) : number base [c, d] = some (u * base + v) := by
  simp [number, hc, hd]

theorem number_isSome_iff {base : ℕ} {digits : List Char} :
    (number base digits).isSome ↔ digits ≠ [] ∧ ∀ c ∈ digits, (digitValue base c).isSome := by
  have hfold : ∀ n, (digits.foldlM (fun n c => (digitValue base c).map (n * base + ·)) n).isSome ↔
      ∀ c ∈ digits, (digitValue base c).isSome := by
    induction digits with
    | nil => simp
    | cons c digits ih =>
      intro n
      cases hc : digitValue base c with
      | none => simp [hc]
      | some v => simp [hc, ih]
  unfold number
  split_ifs with hnil
  · simp [hnil]
  · rw [hfold]
    simp [hnil]

/-- What `%2x` reads: after blanks a digit, which with what follows it is no `0x`, or a sign and a
digit. -/
def ScansHex (t : List Char) : Prop :=
  ∃ c rest, t.dropWhile isSpace = c :: rest ∧
    ((IsHexDigit c ∧ ¬ (c = '0' ∧ (rest.head? = some 'x' ∨ rest.head? = some 'X'))) ∨
      ((c = '+' ∨ c = '-') ∧ ∃ d, rest.head? = some d ∧ IsHexDigit d))

/-- Digits are read up to the first character that is none. -/
theorem number_takeWhile_isSome_iff {c : Char} {rest : List Char} :
    (number 16 ((c :: rest).takeWhile fun c => (digitValue 16 c).isSome)).isSome ↔
      IsHexDigit c := by
  rw [number_isSome_iff, ← digitValue_isSome_iff]
  cases hc : (digitValue 16 c).isSome with
  | false => simp [hc]
  | true =>
    refine iff_of_true ⟨by simp [hc], fun d hd => ?_⟩ rfl
    exact List.all_eq_true.1 List.all_takeWhile d hd

theorem scanHex2_isSome_iff {t : List Char} : (scanHex2 t).isSome ↔ ScansHex t := by
  unfold scanHex2 ScansHex
  generalize t.dropWhile isSpace = u
  have hsign : ¬ IsHexDigit '+' ∧ ¬ IsHexDigit '-' ∧ ¬ IsHexDigit 'x' ∧ ¬ IsHexDigit 'X' := by decide
  obtain _ | ⟨c, _ | ⟨d, rest⟩⟩ := u
  · simp [number]
  · split
    · rename_i heq; cases heq
    · rename_i heq; cases heq
    · rename_i heq; cases heq
    · rename_i heq; cases heq
    · refine number_takeWhile_isSome_iff.trans ?_
      simp
  · rw [show (c :: d :: rest).take 2 = [c, d] from rfl]
    split
    · rename_i heq
      obtain ⟨rfl, rfl⟩ := heq
      simp [hsign]
    · rename_i heq
      obtain ⟨rfl, rfl⟩ := heq
      simp [hsign]
    · rename_i heq
      obtain ⟨rfl, rfl⟩ := heq
      simp [hsign, digitValue_isSome_iff]
    · rename_i heq
      obtain ⟨rfl, rfl⟩ := heq
      simp [hsign, digitValue_isSome_iff]
    · rename_i hx hX hplus hminus
      refine number_takeWhile_isSome_iff.trans ⟨fun hc => ?_, ?_⟩
      · refine ⟨c, d :: rest, rfl, .inl ⟨hc, ?_⟩⟩
        rintro ⟨rfl, hd | hd⟩
        · exact hx (by rw [Option.some.inj hd])
        · exact hX (by rw [Option.some.inj hd])
      · rintro ⟨_, _, heq, ⟨hc, -⟩ | ⟨rfl | rfl, -⟩⟩
        · rwa [(List.cons.inj heq).1]
        · exact (hplus d (by rw [(List.cons.inj heq).1])).elim
        · exact (hminus d (by rw [(List.cons.inj heq).1])).elim

theorem IsHexDigit.isSpace_eq_false {c : Char} (h : IsHexDigit c) : isSpace c = false := by
  refine Bool.eq_false_iff.2 fun hspace => ?_
  simp only [isSpace, Bool.or_eq_true, beq_iff_eq] at hspace
  obtain ((((rfl | rfl) | rfl) | rfl) | rfl) | rfl := hspace <;> exact absurd h (by decide)

/-- Two digits are read as a number of two digits. -/
theorem scanHex2_pair {c d : Char} {rest : List Char} {u v : ℕ} (hc : digitValue 16 c = some u)
    (hd : digitValue 16 d = some v) : scanHex2 (c :: d :: rest) = some (u * 16 + v) := by
  have hhex := isHexDigit_of_digitValue hc
  have hhex' := isHexDigit_of_digitValue hd
  unfold scanHex2
  rw [List.dropWhile_cons_of_neg (by rw [hhex.isSpace_eq_false]; exact Bool.false_ne_true),
    show (c :: d :: rest).take 2 = [c, d] from rfl]
  split
  · rename_i heq
    obtain ⟨rfl, rfl⟩ := heq
    exact absurd hhex' (by decide)
  · rename_i heq
    obtain ⟨rfl, rfl⟩ := heq
    exact absurd hhex' (by decide)
  · rename_i heq
    obtain ⟨rfl, rfl⟩ := heq
    exact absurd hhex (by decide)
  · rename_i heq
    obtain ⟨rfl, rfl⟩ := heq
    exact absurd hhex (by decide)
  · simp only [List.takeWhile, hc, hd, Option.isSome_some]
    exact number_pair hc hd

/-! ### Hexadecimal numbers -/

/-- What is written in hexadecimal consists of digits, and is read as the number that was written. -/
theorem toDigits_sixteen (n : ℕ) : (∀ c ∈ Nat.toDigits 16 n, IsHexDigit c) ∧
    (Nat.toDigits 16 n).foldlM (fun m c => (digitValue 16 c).map (m * 16 + ·)) 0 = some n := by
  have hdigit : ∀ v < 16, IsHexDigit v.digitChar := by decide
  induction n using Nat.strong_induction_on with
  | _ n ih =>
    by_cases hlt : n < 16
    · rw [Nat.toDigits_of_lt_base hlt]
      refine ⟨fun c hc => (List.mem_singleton.1 hc) ▸ hdigit n hlt, ?_⟩
      simp [digitValue_digitChar n hlt]
    · obtain ⟨hdigits, hvalue⟩ := ih (n / 16) (by omega)
      have hmod : n % 16 < 16 := Nat.mod_lt _ (by decide)
      rw [Nat.toDigits_of_base_le (by decide) (Nat.le_of_not_lt hlt)]
      refine ⟨fun c hc => ?_, ?_⟩
      · obtain hc | hc := List.mem_append.1 hc
        · exact hdigits c hc
        · exact (List.mem_singleton.1 hc) ▸ hdigit _ hmod
      · rw [List.foldlM_append, hvalue]
        simp [digitValue_digitChar _ hmod, Nat.div_add_mod']

theorem isHexDigit_of_mem_padded {width n : ℕ} {c : Char} (h : c ∈ padded 16 width n) :
    IsHexDigit c := by
  obtain h | h := List.mem_append.1 h
  · rw [List.eq_of_mem_replicate h]
    decide
  · exact (toDigits_sixteen n).1 c h

/-- A number that is filled up with zeros is read as itself. -/
theorem number_padded (width n : ℕ) : number 16 (padded 16 width n) = some n := by
  have hzeros : ∀ k, (List.replicate k '0').foldlM
      (fun m c => (digitValue 16 c).map (m * 16 + ·)) 0 = some 0 := by
    intro k
    induction k with
    | zero => rfl
    | succ k ih =>
      rw [List.replicate_succ, List.foldlM_cons, show digitValue 16 '0' = some 0 by decide]
      exact ih
  have hne : padded 16 width n ≠ [] := fun hnil =>
    Nat.toDigits_ne_nil (List.append_eq_nil_iff.1 hnil).2
  rw [number, if_neg hne, padded, List.foldlM_append, hzeros]
  exact (toDigits_sixteen n).2

end RpiFastbootd
