import RpiFastbootd.Idp.Parser
import RpiFastbootd.Lib.Text

/-!
# The size that a text writes

A genimage size is a run of decimal digits and a suffix that stands for a unit.  `fromGIsz` reads
the digits with `std::stoull`, which throws on a number that has no room in 64 bits, and multiplies
by the unit with no such check: what it returns is the size modulo `2 ^ 64`
(`fromGIsz_ok_iff`), so that it is the size exactly where the product has room as well.
-/

namespace RpiFastbootd

/-- The suffixes of a size and their units. -/
inductive UnitSuffix : List Char → ℕ → Prop
  | one : UnitSuffix [] 1
  | sector : UnitSuffix ['s'] 512
  | kilo {c : Char} (h : c = 'K' ∨ c = 'k') : UnitSuffix [c] 1024
  | mega {c : Char} (h : c = 'M' ∨ c = 'm') : UnitSuffix [c] (1024 ^ 2)
  | giga {c : Char} (h : c = 'G' ∨ c = 'g') : UnitSuffix [c] (1024 ^ 3)

/-- The text is this number in decimal digits with the suffix of this unit behind it. -/
def Writes (str : String) (number unit : ℕ) : Prop :=
  ∃ digits suffix, str.toList = digits ++ suffix ∧ digits ≠ [] ∧ (∀ c ∈ digits, c.isDigit) ∧
    number = Nat.ofDigitChars 10 digits 0 ∧ UnitSuffix suffix unit

/-- The size that a text denotes. -/
def Denotes (str : String) (n : ℕ) : Prop :=
  ∃ number unit, Writes str number unit ∧ n = number * unit

/-! ### Reading a text -/

theorem unitOf_eq_some_iff {suffix : List Char} {unit : ℕ} :
    unitOf (String.ofList suffix) = some unit ↔ UnitSuffix suffix unit := by
  have hlist : ∀ s : String, String.ofList suffix = s ↔ suffix = s.toList := fun s =>
    ⟨fun h => by rw [← h, String.toList_ofList], fun h => by rw [h, String.ofList_toList]⟩
  unfold unitOf
  simp only [hlist]
  constructor
  · intro h
    split_ifs at h with hk hm hg hs hone
    · cases h
      obtain rfl | rfl := hk
      · exact .kilo (.inl rfl)
      · exact .kilo (.inr rfl)
    · cases h
      obtain rfl | rfl := hm
      · exact .mega (.inl rfl)
      · exact .mega (.inr rfl)
    · cases h
      obtain rfl | rfl := hg
      · exact .giga (.inl rfl)
      · exact .giga (.inr rfl)
    · cases h
      rw [hs]
      exact .sector
    · cases h
      rw [hone]
      exact .one
  · rintro (_ | _ | ⟨rfl | rfl⟩ | ⟨rfl | rfl⟩ | ⟨rfl | rfl⟩) <;> rfl

theorem UnitSuffix.pos {suffix : List Char} {unit : ℕ} (h : UnitSuffix suffix unit) : 0 < unit := by
  cases h <;> decide

/-- No suffix begins with a digit, so that the digits of a size end where its suffix begins. -/
theorem UnitSuffix.takeWhile {suffix : List Char} {unit : ℕ} (h : UnitSuffix suffix unit) :
    suffix.takeWhile Char.isDigit = [] := by
  cases h with
  | one => rfl
  | sector => rfl
  | kilo h => obtain rfl | rfl := h <;> rfl
  | mega h => obtain rfl | rfl := h <;> rfl
  | giga h => obtain rfl | rfl := h <;> rfl

theorem writes_iff {str : String} {number unit : ℕ} :
    Writes str number unit ↔ str.toList.takeWhile Char.isDigit ≠ [] ∧
      number = Nat.ofDigitChars 10 (str.toList.takeWhile Char.isDigit) 0 ∧
      unitOf (String.ofList (str.toList.dropWhile Char.isDigit)) = some unit := by
  rw [unitOf_eq_some_iff]
  constructor
  · rintro ⟨digits, suffix, htext, hne, hdigit, hnumber, hunit⟩
    have htake : str.toList.takeWhile Char.isDigit = digits := by
      rw [htext, List.takeWhile_append_of_pos hdigit, hunit.takeWhile, List.append_nil]
    have hsplit : digits ++ str.toList.dropWhile Char.isDigit = digits ++ suffix := by
      rw [← htext, ← htake, List.takeWhile_append_dropWhile]
    have hdrop : str.toList.dropWhile Char.isDigit = suffix := List.append_cancel_left hsplit
    rw [htake, hdrop]
    exact ⟨hne, hnumber, hunit⟩
  · rintro ⟨hne, hnumber, hunit⟩
    exact ⟨_, _, List.takeWhile_append_dropWhile.symm, hne,
      fun c hc => List.all_eq_true.1 List.all_takeWhile c hc, hnumber, hunit⟩

/-- A text writes at most one size. -/
theorem Writes.unique {str : String} {number unit number' unit' : ℕ} (h : Writes str number unit)
    (h' : Writes str number' unit') : number = number' ∧ unit = unit' := by
  obtain ⟨-, hnumber, hunit⟩ := writes_iff.1 h
  obtain ⟨-, hnumber', hunit'⟩ := writes_iff.1 h'
  exact ⟨hnumber.trans hnumber'.symm, Option.some.inj (hunit.symm.trans hunit')⟩

/-- A number that has room is multiplied in 64 bits. -/
theorem fromGIsz_ok_iff {str : String} {n : ℕ} :
    fromGIsz str = .ok n ↔
      ∃ number unit, Writes str number unit ∧ number < 2 ^ 64 ∧ n = wrap (number * unit) := by
  simp only [writes_iff]
  unfold fromGIsz
  dsimp only
  constructor
  · intro h
    split_ifs at h with hne hlarge
    split at h
    · rename_i unit hunit
      cases h
      exact ⟨_, unit, ⟨hne, rfl, hunit⟩, Nat.lt_of_not_le hlarge, rfl⟩
    · cases h
  · rintro ⟨number, unit, ⟨hne, rfl, hunit⟩, hlt, rfl⟩
    rw [if_neg hne, if_neg (Nat.not_le.2 hlt), hunit]

theorem fromGIsz_lt {str : String} {n : ℕ} (h : fromGIsz str = .ok n) : n < 2 ^ 64 := by
  obtain ⟨number, unit, -, -, rfl⟩ := fromGIsz_ok_iff.1 h
  exact wrap_lt _

/-- What throws writes no size, or one with a number that has no room. -/
theorem fromGIsz_throws_iff {str : String} :
    (∃ e, fromGIsz str = .error e) ↔
      ∀ number unit, Writes str number unit → 2 ^ 64 ≤ number := by
  constructor
  · rintro ⟨e, he⟩ number unit hw
    by_contra hlt
    have hok := fromGIsz_ok_iff.2 ⟨number, unit, hw, Nat.lt_of_not_le hlt, rfl⟩
    rw [he] at hok
    cases hok
  · intro h
    cases hread : fromGIsz str with
    | error e => exact ⟨e, rfl⟩
    | ok n =>
      obtain ⟨number, unit, hw, hlt, -⟩ := fromGIsz_ok_iff.1 hread
      exact (Nat.not_le.2 hlt (h number unit hw)).elim

/-- A number that is written with a suffix is read back, if its size has room. -/
theorem fromGIsz_repr {number unit : ℕ} {suffix : List Char} (hs : UnitSuffix suffix unit)
    (hlt : number * unit < 2 ^ 64) :
    fromGIsz (number.repr ++ String.ofList suffix) = .ok (number * unit) := by
  refine fromGIsz_ok_iff.2 ⟨number, unit, ⟨number.repr.toList, suffix, ?_, ?_, ?_, ?_, hs⟩, ?_, ?_⟩
  · rw [String.toList_append, String.toList_ofList]
  · simp
  · exact fun c hc => isDigit_of_mem_repr hc
  · rw [Nat.toList_repr, Nat.ofDigitChars_ten_toDigits]
  · exact lt_of_le_of_lt (Nat.le_mul_of_pos_right _ hs.pos) hlt
  · exact (wrap_of_lt hlt).symm

/-! ### Exact sizes -/

/-- A text is refused, or read as the size that it denotes; a size without room is refused. -/
structure ReadExactly (str : String) : Prop where
  exact : (∃ e, fromGIsz str = .error e) ∨ ∃ n, fromGIsz str = .ok n ∧ Denotes str n
  rejected : ∀ n, Denotes str n → 2 ^ 64 ≤ n → ∃ e, fromGIsz str = .error e

/-- A text is read exactly if and only if its number has no room in 64 bits, or the product with the
unit has. -/
theorem fromGIsz_exact_iff (str : String) :
    ReadExactly str ↔
      ∀ number unit, Writes str number unit → number < 2 ^ 64 → number * unit < 2 ^ 64 := by
  constructor
  · intro h number unit hw hlt
    have hok := fromGIsz_ok_iff.2 ⟨number, unit, hw, hlt, rfl⟩
    by_contra hlarge
    obtain ⟨e, he⟩ := h.rejected _ ⟨number, unit, hw, rfl⟩ (Nat.le_of_not_lt hlarge)
    rw [he] at hok
    cases hok
  · intro h
    refine ⟨?_, ?_⟩
    · cases hread : fromGIsz str with
      | error e => exact .inl ⟨e, rfl⟩
      | ok n =>
        obtain ⟨number, unit, hw, hlt, rfl⟩ := fromGIsz_ok_iff.1 hread
        exact .inr ⟨_, rfl, number, unit, hw, wrap_of_lt (h number unit hw hlt)⟩
    · rintro n ⟨number, unit, hw, rfl⟩ hlarge
      refine fromGIsz_throws_iff.2 fun number' unit' hw' => ?_
      obtain ⟨rfl, rfl⟩ := hw.unique hw'
      by_contra hlt
      exact Nat.not_lt.2 hlarge (h number unit hw (Nat.lt_of_not_le hlt))

/-- A size of 16 EiB and 1 MiB is read as 1 MiB. -/
theorem oversized_text_wraps :
    fromGIsz "17592186044417M" = .ok (2 ^ 20) ∧ Denotes "17592186044417M" (2 ^ 64 + 2 ^ 20) ∧
      ¬ ReadExactly "17592186044417M" := by
  have hw : Writes "17592186044417M" 17592186044417 (1024 ^ 2) := writes_iff.2 (by decide)
  have hread : fromGIsz "17592186044417M" = .ok (2 ^ 20) := by decide
  refine ⟨hread, ⟨_, _, hw, by decide⟩, fun h => ?_⟩
  obtain ⟨e, he⟩ := h.rejected _ ⟨_, _, hw, rfl⟩ (by decide)
  rw [hread] at he
  cases he

end RpiFastbootd
