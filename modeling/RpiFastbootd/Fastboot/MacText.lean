import Mathlib.Data.List.GetD
import Mathlib.Tactic.IntervalCases
import RpiFastbootd.Lib.Digits
import RpiFastbootd.Lib.Outcome
import RpiFastbootd.Fastboot.Oem
import RpiFastbootd.Fastboot.OtpSafety

/-!
# Addresses as text

`ParseMac` reads what it should and `FormatMac` writes it in one form (`mac_text_round_trips`).  The
variables that report the addresses in the OTP rows write them in another way, with separators put
into the text of the rows; the text is the same (`getMacFromOtp_eq_formatMac`).
-/

namespace RpiFastbootd

open FastbootDevice

/-! ### The text of an address -/

/-- Two hexadecimal digits. -/
def IsOctetText (t : List Char) : Prop := ∃ a b, t = [a, b] ∧ IsHexDigit a ∧ IsHexDigit b

/-- Six octets with the same separator between them. -/
def IsMacText (s : String) : Prop :=
  ∃ sep octets, (sep = ':' ∨ sep = '-') ∧ octets.length = 6 ∧ (∀ t ∈ octets, IsOctetText t) ∧
    s.toList = [sep].intercalate octets

def canonicalChar (c : Char) : Char := if c = '-' then ':' else c.toLower

/-- In lower case, with colons between the octets. -/
def canonical (s : String) : String := String.ofList (s.toList.map canonicalChar)

theorem canonicalChar_hexDigit {c : Char} (h : IsHexDigit c) : canonicalChar c = c.toLower := by
  refine if_neg ?_
  rintro rfl
  exact absurd h (by decide)

theorem canonicalChar_separator {c : Char} (h : c = ':' ∨ c = '-') : canonicalChar c = ':' := by
  obtain rfl | rfl := h
  · rfl
  · rfl

theorem hexText_eq (width n : ℕ) : hexText width n = String.ofList (padded 16 width n) := rfl

/-- The character at a place, where the text has one. -/
def charAt (s : String) (i : ℕ) : Char := s.toList.getD i '\x00'

/-- What `ParseMac` asks of an octet. -/
def OctetAt (s : String) (i : ℕ) (octet : Byte) : Prop :=
  (0 < i → charAt s (3 * i - 1) = charAt s 2) ∧
    ∃ high low, digitValue 16 (charAt s (3 * i)) = some high ∧
      digitValue 16 (charAt s (3 * i + 1)) = some low ∧ octet = BitVec.ofNat 8 (high * 16 + low)

theorem ofFn_getD_eq_iff {octets : List Byte} (h : octets.length = 6) {mac : Mac} :
    (Vector.ofFn fun i : Fin 6 => octets.getD i 0) = mac ↔ octets = mac.toList := by
  have hlist : (Vector.ofFn fun i : Fin 6 => octets.getD i 0).toList = octets := by
    refine List.ext_getElem (by simp [h]) fun i hi₁ hi₂ => ?_
    simp [hi₂]
  constructor
  · rintro rfl
    exact hlist.symm
  · intro heq
    exact Vector.toList_inj.1 (hlist.trans heq)

theorem parseMac_eq_ok_iff {s : String} {mac : Mac} :
    parseMac s = .ok mac ↔
      s.length = 17 ∧ (charAt s 2 = ':' ∨ charAt s 2 = '-') ∧
        List.Forall₂ (OctetAt s) (List.range 6) mac.toList := by
  unfold parseMac
  by_cases hlen : s.length = 17
  swap
  · rw [if_pos hlen]
    exact ⟨fun h => (by cases h), fun h => (hlen h.1).elim⟩
  rw [if_neg (not_not.2 hlen)]
  by_cases hsep : charAt s 2 = ':' ∨ charAt s 2 = '-'
  swap
  · have hno : charAt s 2 ≠ ':' ∧ charAt s 2 ≠ '-' := not_or.1 hsep
    refine (iff_of_eq (congrArg (· = _) (if_pos hno))).trans ?_
    exact ⟨fun h => (by cases h), fun h => (hsep h.2.1).elim⟩
  have hno : ¬ (charAt s 2 ≠ ':' ∧ charAt s 2 ≠ '-') := by simpa [or_iff_not_imp_left] using hsep
  refine (iff_of_eq (congrArg (· = _) (if_neg hno))).trans ?_
  simp only [bind_eq_ok_iff, pure_eq_ok_iff]
  refine (exists_congr fun octets => and_congr_left'
    (mapM_eq_ok_iff fun i octet => ?_)).trans (b := ∃ octets,
      List.Forall₂ (OctetAt s) (List.range 6) octets ∧ _ = mac) ?_
  · by_cases hfirst : 0 < i ∧ charAt s (3 * i - 1) ≠ charAt s 2
    · refine (iff_of_eq (congrArg (· = _) (if_pos hfirst))).trans ?_
      exact ⟨fun h => (by cases h), fun h => (hfirst.2 (h.1 hfirst.1)).elim⟩
    · refine (iff_of_eq (congrArg (· = _) (if_neg hfirst))).trans ?_
      push Not at hfirst
      refine Iff.trans ?_ (and_iff_right hfirst).symm
      show _ ↔ ∃ high low, digitValue 16 (s.toList.getD (3 * i) '\x00') = some high ∧
        digitValue 16 (s.toList.getD (3 * i + 1) '\x00') = some low ∧ _
      cases digitValue 16 (s.toList.getD (3 * i) '\x00') with
      | none => simp
      | some high =>
        cases digitValue 16 (s.toList.getD (3 * i + 1) '\x00') with
        | none => simp
        | some low => simp [eq_comm]
  · constructor
    · rintro ⟨octets, hoctets, hmac⟩
      refine ⟨hlen, hsep, ?_⟩
      rwa [← (ofFn_getD_eq_iff hoctets.length_eq.symm).1 hmac]
    · rintro ⟨-, -, hoctets⟩
      exact ⟨_, hoctets, (ofFn_getD_eq_iff hoctets.length_eq.symm).2 rfl⟩

/-! ### What is accepted -/

theorem toList_eq_charAt {s : String} (h : s.length = 17) :
    s.toList = (List.range 17).map (charAt s) := by
  have hlen : s.toList.length = 17 := String.length_toList.trans h
  refine List.ext_getElem (by simp [hlen]) fun i hi₁ hi₂ => ?_
  rw [List.getElem_map, List.getElem_range, charAt, List.getD_eq_getElem _ _ hi₁]

/-- The two digits of each octet. -/
def octetTexts (s : String) : List (List Char) :=
  (List.range 6).map fun i => [charAt s (3 * i), charAt s (3 * i + 1)]

theorem toList_of_separators {s : String} (hlen : s.length = 17)
    (hsep : ∀ i < 6, 0 < i → charAt s (3 * i - 1) = charAt s 2) :
    s.toList = [charAt s 2].intercalate (octetTexts s) := by
  have h2 : charAt s 5 = charAt s 2 := hsep 2 (by decide) (by decide)
  have h3 : charAt s 8 = charAt s 2 := hsep 3 (by decide) (by decide)
  have h4 : charAt s 11 = charAt s 2 := hsep 4 (by decide) (by decide)
  have h5 : charAt s 14 = charAt s 2 := hsep 5 (by decide) (by decide)
  rw [toList_eq_charAt hlen]
  simp [octetTexts, List.range_succ, h2, h3, h4, h5]

theorem exists_of_length_six {α : Type} {l : List α} (h : l.length = 6) :
    ∃ a b c d e f, l = [a, b, c, d, e, f] := by
  obtain _ | ⟨a, _ | ⟨b, _ | ⟨c, _ | ⟨d, _ | ⟨e, _ | ⟨f, _ | ⟨g, l⟩⟩⟩⟩⟩⟩⟩ := l <;> simp at h ⊢

theorem isMacText_iff {s : String} :
    IsMacText s ↔ s.length = 17 ∧ (charAt s 2 = ':' ∨ charAt s 2 = '-') ∧ ∀ i < 6,
      (0 < i → charAt s (3 * i - 1) = charAt s 2) ∧ IsHexDigit (charAt s (3 * i)) ∧
        IsHexDigit (charAt s (3 * i + 1)) := by
  constructor
  · rintro ⟨sep, octets, hsep, hlen, hoctets, hs⟩
    obtain ⟨t₀, t₁, t₂, t₃, t₄, t₅, rfl⟩ := exists_of_length_six hlen
    obtain ⟨a₀, b₀, rfl, ha₀, hb₀⟩ := hoctets t₀ (by simp)
    obtain ⟨a₁, b₁, rfl, ha₁, hb₁⟩ := hoctets t₁ (by simp)
    obtain ⟨a₂, b₂, rfl, ha₂, hb₂⟩ := hoctets t₂ (by simp)
    obtain ⟨a₃, b₃, rfl, ha₃, hb₃⟩ := hoctets t₃ (by simp)
    obtain ⟨a₄, b₄, rfl, ha₄, hb₄⟩ := hoctets t₄ (by simp)
    obtain ⟨a₅, b₅, rfl, ha₅, hb₅⟩ := hoctets t₅ (by simp)
    have hchars : s.toList = [a₀, b₀, sep, a₁, b₁, sep, a₂, b₂, sep, a₃, b₃, sep, a₄, b₄, sep, a₅,
      b₅] := hs
    have hlength : s.length = 17 := by rw [← String.length_toList, hchars]; rfl
    have hchar : charAt s = fun i => [a₀, b₀, sep, a₁, b₁, sep, a₂, b₂, sep, a₃, b₃, sep, a₄, b₄,
        sep, a₅, b₅].getD i '\x00' := by
      funext i
      rw [charAt, hchars]
    rw [hchar]
    refine ⟨hlength, hsep, fun i hi => ?_⟩
    interval_cases i <;> simp [*]
  · rintro ⟨hlen, hsep, hall⟩
    refine ⟨charAt s 2, octetTexts s, hsep, rfl, fun t ht => ?_,
      toList_of_separators hlen fun i hi => (hall i hi).1⟩
    obtain ⟨i, hi, rfl⟩ := List.mem_map.1 ht
    exact ⟨_, _, rfl, (hall i (List.mem_range.1 hi)).2⟩

theorem exists_octetAt_iff {s : String} {i : ℕ} :
    (∃ octet, OctetAt s i octet) ↔
      (0 < i → charAt s (3 * i - 1) = charAt s 2) ∧ IsHexDigit (charAt s (3 * i)) ∧
        IsHexDigit (charAt s (3 * i + 1)) := by
  rw [← digitValue_isSome_iff, ← digitValue_isSome_iff, Option.isSome_iff_exists,
    Option.isSome_iff_exists]
  constructor
  · rintro ⟨octet, hsep, high, low, hhigh, hlow, -⟩
    exact ⟨hsep, ⟨high, hhigh⟩, ⟨low, hlow⟩⟩
  · rintro ⟨hsep, ⟨high, hhigh⟩, ⟨low, hlow⟩⟩
    exact ⟨_, hsep, high, low, hhigh, hlow, rfl⟩

/-- `ParseMac` accepts the text of an address, and no other. -/
theorem parseMac_accepts_iff {s : String} : (∃ mac, parseMac s = .ok mac) ↔ IsMacText s := by
  simp only [parseMac_eq_ok_iff, exists_and_left, isMacText_iff]
  refine and_congr_right fun _ => and_congr_right fun _ => ?_
  simp only [← exists_octetAt_iff]
  have hall := @exists_forall₂_iff _ _ (OctetAt s) (List.range 6)
  simp only [List.mem_range] at hall
  rw [← hall]
  constructor
  · rintro ⟨mac, hmac⟩
    exact ⟨_, hmac⟩
  · rintro ⟨octets, hoctets⟩
    have heq := (ofFn_getD_eq_iff hoctets.length_eq.symm).1 rfl
    exact ⟨_, heq ▸ hoctets⟩

/-! ### What is written -/

theorem hexText_octet {high low : ℕ} (hhigh : high < 16) (hlow : low < 16) :
    (hexText 2 (BitVec.ofNat 8 (high * 16 + low)).toNat).toList =
      [high.digitChar, low.digitChar] := by
  rw [hexText_eq, String.toList_ofList, BitVec.toNat_ofNat, Nat.mod_eq_of_lt (by omega),
    padded_two hhigh hlow]

/-- An octet is written as it was read, in lower case. -/
theorem OctetAt.hexText {s : String} {i : ℕ} {octet : Byte} (h : OctetAt s i octet) :
    (hexText 2 octet.toNat).toList =
      [(charAt s (3 * i)).toLower, (charAt s (3 * i + 1)).toLower] := by
  obtain ⟨-, high, low, hhigh, hlow, rfl⟩ := h
  rw [hexText_octet (digitValue_lt hhigh) (digitValue_lt hlow), digitChar_of_digitValue hhigh,
    digitChar_of_digitValue hlow]

theorem map_eq_map_of_forall₂ {α β γ : Type} {f : α → γ} {g : β → γ} {as : List α} {bs : List β}
    (h : List.Forall₂ (fun a b => g b = f a) as bs) : bs.map g = as.map f := by
  induction h with
  | nil => rfl
  | cons hab _ ih => rw [List.map_cons, List.map_cons, hab, ih]

theorem toList_formatMac (mac : Mac) :
    (formatMac mac).toList =
      [':'].intercalate (mac.toList.map fun octet => (hexText 2 octet.toNat).toList) := by
  rw [formatMac, String.toList_intercalate, List.map_map]
  rfl

theorem map_intercalate {α β : Type} (f : α → β) (sep : List α) (l : List (List α)) :
    (sep.intercalate l).map f = (sep.map f).intercalate (l.map (List.map f)) := by
  induction l with
  | nil => rfl
  | cons a l ih =>
    cases l with
    | nil => simp
    | cons b l =>
      rw [List.intercalate_cons_cons, List.map_append, List.map_append, ih]
      simp

/-- The address that is read from a text is written as the text in its canonical form. -/
theorem formatMac_of_parseMac {s : String} {mac : Mac} (h : parseMac s = .ok mac) :
    formatMac mac = canonical s := by
  obtain ⟨hlen, hsep, hall⟩ := isMacText_iff.1 (parseMac_accepts_iff.1 ⟨mac, h⟩)
  obtain ⟨-, -, hoctets⟩ := parseMac_eq_ok_iff.1 h
  refine String.toList_inj.1 ?_
  rw [toList_formatMac, map_eq_map_of_forall₂ (hoctets.imp fun _ _ hoctet => hoctet.hexText),
    canonical, String.toList_ofList, toList_of_separators hlen fun i hi => (hall i hi).1,
    map_intercalate, List.map_singleton, canonicalChar_separator hsep]
  refine congrArg _ ?_
  rw [octetTexts, List.map_map]
  refine List.map_congr_left fun i hi => ?_
  obtain ⟨-, ha, hb⟩ := hall i (List.mem_range.1 hi)
  show _ = [canonicalChar _, canonicalChar _]
  rw [canonicalChar_hexDigit ha, canonicalChar_hexDigit hb]

theorem hexText_byte (octet : Byte) :
    (hexText 2 octet.toNat).toList =
      [(octet.toNat / 16).digitChar, (octet.toNat % 16).digitChar] := by
  have hlt := octet.isLt
  have h := @padded_two (octet.toNat / 16) (octet.toNat % 16) (by omega) (by omega)
  rw [Nat.div_add_mod'] at h
  rw [hexText_eq, String.toList_ofList, h]

theorem byte_eq_ofNat (octet : Byte) :
    octet = BitVec.ofNat 8 (octet.toNat / 16 * 16 + octet.toNat % 16) := by
  rw [Nat.div_add_mod', BitVec.ofNat_toNat, BitVec.setWidth_eq]

/-- What is written is read back. -/
theorem parseMac_formatMac (mac : Mac) : parseMac (formatMac mac) = .ok mac := by
  obtain ⟨a, b, c, d, e, f, hmac⟩ := exists_of_length_six mac.length_toList
  have hchars := toList_formatMac mac
  simp only [hexText_byte] at hchars
  have hchar : charAt (formatMac mac) = fun i => ([':'].intercalate (mac.toList.map fun octet =>
      [(octet.toNat / 16).digitChar, (octet.toNat % 16).digitChar])).getD i '\x00' := by
    funext i
    rw [charAt, hchars]
  rw [hmac] at hchars hchar
  have hlen : (formatMac mac).length = 17 := by rw [← String.length_toList, hchars]; rfl
  have hoctet : ∀ (i : ℕ) (octet : Byte),
      (0 < i → charAt (formatMac mac) (3 * i - 1) = charAt (formatMac mac) 2) →
      charAt (formatMac mac) (3 * i) = (octet.toNat / 16).digitChar →
      charAt (formatMac mac) (3 * i + 1) = (octet.toNat % 16).digitChar →
      OctetAt (formatMac mac) i octet := by
    intro i octet hsep hhigh hlow
    have hlt := octet.isLt
    refine ⟨hsep, _, _, ?_, ?_, byte_eq_ofNat octet⟩
    · rw [hhigh, digitValue_digitChar _ (by omega)]
    · rw [hlow, digitValue_digitChar _ (by omega)]
  rw [parseMac_eq_ok_iff, hmac]
  refine ⟨hlen, .inl (by rw [hchar]; rfl), ?_⟩
  rw [hchar] at hoctet
  show List.Forall₂ _ [0, 1, 2, 3, 4, 5] _
  exact .cons (hoctet 0 a (fun h => absurd h (by decide)) rfl rfl)
    (.cons (hoctet 1 b (fun _ => rfl) rfl rfl) (.cons (hoctet 2 c (fun _ => rfl) rfl rfl)
      (.cons (hoctet 3 d (fun _ => rfl) rfl rfl) (.cons (hoctet 4 e (fun _ => rfl) rfl rfl)
        (.cons (hoctet 5 f (fun _ => rfl) rfl rfl) .nil)))))

/-! ### The words of an address -/

/-- A word is put together from its octets. -/
theorem or_octets (w : Word) :
    ((w &&& 0xff).setWidth 8).setWidth 32 ||| (((w >>> 8) &&& 0xff).setWidth 8).setWidth 32 <<< 8 |||
        (((w >>> 16) &&& 0xff).setWidth 8).setWidth 32 <<< 16 |||
        (((w >>> 24) &&& 0xff).setWidth 8).setWidth 32 <<< 24 = w := by
  ext i hi
  interval_cases i <;> simp

theorem macToWords_macFromWords {w₀ w₁ : Word} (h : w₁.toNat < 2 ^ 16) :
    macToWords (macFromWords [w₀, w₁]) = [w₀, w₁] := by
  have hblank : ∀ n, 16 ≤ n → w₁ >>> n = 0 := by
    intro n hn
    have hlt : w₁.toNat < 2 ^ n := h.trans_le (Nat.pow_le_pow_right (by decide) hn)
    apply BitVec.eq_of_toNat_eq
    rw [BitVec.toNat_ushiftRight, Nat.shiftRight_eq_div_pow, Nat.div_eq_of_lt hlt]
    rfl
  have h₁ := or_octets w₁
  rw [hblank 16 (by decide), hblank 24 (by decide)] at h₁
  have h₁ : ((w₁ &&& 0xff).setWidth 8).setWidth 32 |||
      (((w₁ >>> 8) &&& 0xff).setWidth 8).setWidth 32 <<< 8 = w₁ := by simpa using h₁
  exact congrArg₂ (fun a b => [a, b]) (or_octets w₀) h₁

/-- Reading and writing an address, as text and as words, undo each other, and exactly the texts of
addresses are read. -/
theorem mac_text_round_trips :
    (∀ s, (∃ mac, parseMac s = .ok mac) ↔ IsMacText s) ∧
    (∀ s mac, parseMac s = .ok mac → formatMac mac = canonical s) ∧
    (∀ mac, parseMac (formatMac mac) = .ok mac) ∧
    (∀ mac, macFromWords (macToWords mac) = mac) ∧
    ∀ w₀ w₁ : Word, w₁.toNat < 2 ^ 16 → macToWords (macFromWords [w₀, w₁]) = [w₀, w₁] :=
  ⟨fun _ => parseMac_accepts_iff, fun _ _ => formatMac_of_parseMac, parseMac_formatMac,
    macFromWords_macToWords, fun _ _ => macToWords_macFromWords⟩

/-! ### The addresses in the OTP rows -/

/-- The loop of `FormatMacPart` from a position on. -/
def insertSeparators (result : List Char) (i : ℕ) : List Char :=
  if i < result.length then insertSeparators (result.take i ++ ':' :: result.drop i) (i + 3)
  else result
termination_by result.length - i
decreasing_by
  simp only [List.length_append, List.length_take, List.length_cons, List.length_drop]
  omega

def formatMacPart (hex : String) : String := String.ofList (insertSeparators hex.toList 2)

/-- `GetMacFromOtp`: the address in the high row and the top half of the low one; a blank one is
reported as an empty text. -/
def getMacFromOtp (readOtpRow : Word → Except String Word) (lowRow highRow : Word) :
    Except String String := do
  let low ← readOtpRow lowRow
  let high ← readOtpRow highRow
  if high = 0 ∧ low >>> 16 = 0 then return ""
  else
    return formatMacPart (hexText 8 high.toNat) ++ ":" ++
      formatMacPart (hexText 4 (low >>> 16).toNat)

/-- The octets of the high row, the most significant one first, and of the top half of the low
row. -/
def macOfRows (low high : Word) : Mac :=
  #v[(high >>> 24).setWidth 8, (high >>> 16).setWidth 8, (high >>> 8).setWidth 8, high.setWidth 8,
    (low >>> 24).setWidth 8, (low >>> 16).setWidth 8]

/-- A separator goes in front of every octet that is left. -/
theorem insertSeparators_flatten {octets : List (List Char)} (h : ∀ t ∈ octets, t.length = 2)
    (first : List Char) :
    insertSeparators (first ++ octets.flatten) first.length =
      first ++ octets.flatMap (':' :: ·) := by
  induction octets generalizing first with
  | nil =>
    unfold insertSeparators
    exact if_neg (by simp)
  | cons t octets ih =>
    rw [List.forall_mem_cons] at h
    have hlt : first.length < (first ++ (t :: octets).flatten).length := by
      rw [List.flatten_cons, List.length_append, List.length_append]
      omega
    have hlen : (first ++ ':' :: t).length = first.length + 3 := by
      rw [List.length_append, List.length_cons, h.1]
    unfold insertSeparators
    rw [if_pos hlt, List.take_left, List.drop_left, ← hlen]
    have hih := ih h.2 (first ++ ':' :: t)
    simp only [List.flatten_cons, List.flatMap_cons, List.append_assoc, List.cons_append] at hih ⊢
    exact hih

theorem intercalate_eq_flatMap (sep t : List Char) (octets : List (List Char)) :
    sep.intercalate (t :: octets) = t ++ octets.flatMap (sep ++ ·) := by
  induction octets generalizing t with
  | nil => simp
  | cons u octets ih => rw [List.intercalate_cons_cons, ih, List.flatMap_cons]; simp

theorem toList_formatMacPart {hex : String} {t : List Char} {octets : List (List Char)}
    (hhex : hex.toList = (t :: octets).flatten) (h : ∀ u ∈ t :: octets, u.length = 2) :
    (formatMacPart hex).toList = [':'].intercalate (t :: octets) := by
  rw [List.forall_mem_cons] at h
  rw [formatMacPart, String.toList_ofList, hhex, List.flatten_cons, ← h.1,
    insertSeparators_flatten h.2, intercalate_eq_flatMap]
  rfl

/-- The two digits of a byte. -/
def byteText (n : ℕ) : List Char := padded 16 2 n

theorem length_byteText {n : ℕ} (h : n < 256) : (byteText n).length = 2 := by
  have hsplit := @padded_two (n / 16) (n % 16) (by omega) (by omega)
  rw [Nat.div_add_mod'] at hsplit
  rw [byteText, hsplit]
  rfl

theorem padded_four (n : ℕ) : padded 16 4 n = byteText (n / 256) ++ byteText (n % 256) :=
  @padded_split 16 n (by decide) 2 2 (by decide) (by decide)

theorem toList_hexText_four (n : ℕ) :
    (hexText 4 n).toList = [byteText (n / 256), byteText (n % 256)].flatten := by
  rw [hexText_eq, String.toList_ofList, padded_four]
  simp

theorem toList_hexText_eight (n : ℕ) :
    (hexText 8 n).toList =
      [byteText (n / 16777216), byteText (n / 65536 % 256), byteText (n / 256 % 256),
        byteText (n % 256)].flatten := by
  have hsplit := @padded_split 16 n (by decide) 4 4 (by decide) (by decide)
  have hfirst : n / 16 ^ 4 / 256 = n / 16777216 := by omega
  have hsecond : n / 16 ^ 4 % 256 = n / 65536 % 256 := by omega
  have hthird : n % 16 ^ 4 / 256 = n / 256 % 256 := by omega
  have hfourth : n % 16 ^ 4 % 256 = n % 256 := by omega
  rw [hexText_eq, String.toList_ofList, hsplit, padded_four, padded_four, hfirst, hsecond, hthird,
    hfourth]
  simp

/-- The text of the rows is the address as `FormatMac` writes it. -/
theorem formatMac_macOfRows (low high : Word) :
    formatMacPart (hexText 8 high.toNat) ++ ":" ++ formatMacPart (hexText 4 (low >>> 16).toNat) =
      formatMac (macOfRows low high) := by
  refine String.toList_inj.1 ?_
  have hhigh := high.isLt
  have hlow := (low >>> 16).isLt
  have hlowNat : (low >>> 16).toNat = low.toNat / 65536 := by simp [Nat.shiftRight_eq_div_pow]
  have hbytes : (macOfRows low high).toList.map (fun octet => (hexText 2 octet.toNat).toList) =
      [byteText (high.toNat / 16777216), byteText (high.toNat / 65536 % 256),
        byteText (high.toNat / 256 % 256), byteText (high.toNat % 256),
        byteText ((low >>> 16).toNat / 256), byteText ((low >>> 16).toNat % 256)] := by
    have htext : ∀ octet : Byte, (hexText 2 octet.toNat).toList = byteText octet.toNat :=
      fun _ => String.toList_ofList
    have hoctet : ∀ (w : Word) (k : ℕ),
        ((w >>> k).setWidth 8 : Byte).toNat = w.toNat / 2 ^ k % 256 := fun w k => by
      rw [BitVec.toNat_setWidth, BitVec.toNat_ushiftRight, Nat.shiftRight_eq_div_pow]
    have h₀ : (high.setWidth 8 : Byte).toNat = high.toNat % 256 := BitVec.toNat_setWidth ..
    have hfirst : high.toNat / 2 ^ 24 % 256 = high.toNat / 16777216 := by omega
    have hfifth : low.toNat / 2 ^ 24 % 256 = low.toNat / 65536 / 256 := by omega
    simp only [htext, macOfRows, Vector.toList_mk, List.map_cons, List.map_nil, hoctet, h₀, hfirst,
      hfifth, hlowNat]
    rfl
  rw [String.toList_append, String.toList_append, toList_formatMacPart (toList_hexText_eight _) ?_,
    toList_formatMacPart (toList_hexText_four _) ?_, toList_formatMac, hbytes]
  · simp
  · simp only [List.forall_mem_cons, List.not_mem_nil, false_imp_iff, implies_true, and_true]
    exact ⟨length_byteText (by omega), length_byteText (by omega)⟩
  · simp only [List.forall_mem_cons, List.not_mem_nil, false_imp_iff, implies_true, and_true]
    exact ⟨length_byteText (by omega), length_byteText (by omega), length_byteText (by omega),
      length_byteText (by omega)⟩

/-- The 48 bits of the address in two rows. -/
def addressBits (low high : Word) : ℕ := high.toNat * 2 ^ 16 + low.toNat / 2 ^ 16

theorem addressBits_eq_zero_iff {low high : Word} :
    addressBits low high = 0 ↔ high = 0 ∧ low >>> 16 = 0 := by
  rw [addressBits, Nat.add_eq_zero_iff, ← BitVec.toNat_inj, ← BitVec.toNat_inj,
    BitVec.toNat_ushiftRight, Nat.shiftRight_eq_div_pow]
  simp

theorem formatMac_ne_empty (mac : Mac) : formatMac mac ≠ "" := by
  intro h
  have hlen := (parseMac_eq_ok_iff.1 (parseMac_formatMac mac)).1
  rw [h] at hlen
  exact absurd hlen (by decide)

/-- The address that is reported is empty where its bits are blank, and otherwise what `FormatMac`
writes for the octets of the rows, which `ParseMac` reads back. -/
theorem getMacFromOtp_eq_formatMac (readOtpRow : Word → Except String Word)
    (lowRow highRow low high : Word) (hlow : readOtpRow lowRow = .ok low)
    (hhigh : readOtpRow highRow = .ok high) :
    ∃ message, getMacFromOtp readOtpRow lowRow highRow = .ok message ∧
      (message = "" ↔ addressBits low high = 0) ∧
      (addressBits low high ≠ 0 →
        message = formatMac (macOfRows low high) ∧ parseMac message = .ok (macOfRows low high)) := by
  unfold getMacFromOtp
  rw [hlow, hhigh, ok_bind, ok_bind]
  by_cases hblank : high = 0 ∧ low >>> 16 = 0
  · rw [if_pos hblank]
    have hzero := addressBits_eq_zero_iff.2 hblank
    exact ⟨"", rfl, iff_of_true rfl hzero, fun h => absurd hzero h⟩
  · rw [if_neg hblank, formatMac_macOfRows]
    have hnonzero := mt addressBits_eq_zero_iff.1 hblank
    exact ⟨_, rfl, iff_of_false (formatMac_ne_empty _) hnonzero,
      fun _ => ⟨rfl, parseMac_formatMac _⟩⟩

/-- The rows of an address, the low one with other bits in its lower half. -/
def sampleRow (row : Word) : Except String Word :=
  .ok (if row = 50 then 0xd5e51234 else 0x2ccf67e6)

theorem getMacFromOtp_sampleRow :
    getMacFromOtp sampleRow 50 51 = .ok "2c:cf:67:e6:d5:e5" ∧
      parseMac "2c:cf:67:e6:d5:e5" = .ok #v[0x2c, 0xcf, 0x67, 0xe6, 0xd5, 0xe5] := by
  obtain ⟨message, heq, -, hread⟩ :=
    getMacFromOtp_eq_formatMac sampleRow 50 51 0xd5e51234 0x2ccf67e6 rfl rfl
  obtain ⟨hformat, hparse⟩ := hread (by decide)
  have htext : formatMac (macOfRows 0xd5e51234 0x2ccf67e6) = "2c:cf:67:e6:d5:e5" := by
    decide +kernel
  rw [htext] at hformat
  rw [hformat] at heq hparse
  refine ⟨heq, hparse.trans (congrArg Except.ok ?_)⟩
  decide +kernel

end RpiFastbootd
