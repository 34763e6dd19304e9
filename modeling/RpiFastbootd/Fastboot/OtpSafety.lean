import Mathlib.Tactic.IntervalCases
import RpiFastbootd.Fastboot.Otp

/-!
# Fuses are blown once

Requests to program customer rows and MAC addresses, in any order and in any environment: a row
that holds a value keeps it, a reported success means that the rows hold the requested values, a
refused request changes nothing, and no write leaves the customer rows
(`otp_requests_safe`).
-/

namespace RpiFastbootd

/-! ### Buffers and addresses -/

theorem macFromWords_macToWords (mac : Mac) : macFromWords (macToWords mac) = mac := by
  refine Vector.ext fun k hk => ?_
  ext i hi
  interval_cases k <;> interval_cases i <;> simp [macFromWords, macToWords]

theorem bufTag_mboxBuffer (tag valueBytes : Word) (value : List Word) :
    bufTag (mboxBuffer tag valueBytes value) = tag := rfl

theorem bufValue_mboxBuffer {tag valueBytes : Word} {value : List Word}
    (h : ((valueBytes + 3) / 4).toNat = value.length) :
    bufValue (mboxBuffer tag valueBytes value) = value := by
  change (value ++ [0]).take ((valueBytes + 3) / 4).toNat = value
  rw [h, List.take_left]

/-- The rows are customer rows, and there is at least one. -/
def InRegion (start count : Word) : Prop := 0 < count.toNat ∧ start.toNat + count.toNat ≤ 8

theorem inRegion_iff {start count : Word} :
    InRegion start count ↔
      ¬ count = 0 ∧ ¬ (kCustomerRows ≤ start ∨ kCustomerRows - start < count) := by
  have hs := start.isLt
  have hc := count.isLt
  have h0 : (0 : Word).toNat = 0 := rfl
  have h8 : (8 : Word).toNat = 8 := rfl
  rw [InRegion, kCustomerRows, BitVec.le_def, BitVec.lt_def, ← BitVec.toNat_inj, BitVec.toNat_sub,
    h0, h8]
  omega

theorem words_customer {start count : Word} (h : InRegion start count) :
    ((8 + count * 4 + 3) / 4 : Word).toNat = count.toNat + 2 := by
  obtain ⟨-, h⟩ := h
  have h3 : (3 : Word).toNat = 3 := rfl
  have h4 : (4 : Word).toNat = 4 := rfl
  have h8 : (8 : Word).toNat = 8 := rfl
  rw [BitVec.toNat_udiv, BitVec.toNat_add, BitVec.toNat_add, BitVec.toNat_mul, h3, h4, h8]
  omega

/-! ### Reads -/

/-- The buffer asks the firmware to blow fuses. -/
def isWrite (buf : List Word) : Bool :=
  bufTag buf == kTagSetCustomerOtp || (macOfTag kTagSetCustomerMac (bufTag buf)).isSome

/-- Nothing has been written. -/
structure ReadOnly (s s' : OtpState) : Prop where
  otp : s'.otp = s.otp
  sent : ∃ bufs, s'.sent = s.sent ++ bufs ∧ ∀ b ∈ bufs, isWrite b = false

theorem ReadOnly.refl (s : OtpState) : ReadOnly s s := ⟨rfl, [], by simp, by simp⟩

theorem sent_trans {P : List Word → Prop} {s₁ s₂ s₃ : OtpState}
    (h₁ : ∃ bufs, s₂.sent = s₁.sent ++ bufs ∧ ∀ b ∈ bufs, P b)
    (h₂ : ∃ bufs, s₃.sent = s₂.sent ++ bufs ∧ ∀ b ∈ bufs, P b) :
    ∃ bufs, s₃.sent = s₁.sent ++ bufs ∧ ∀ b ∈ bufs, P b := by
  obtain ⟨bufs₁, hs₁, hb₁⟩ := h₁
  obtain ⟨bufs₂, hs₂, hb₂⟩ := h₂
  refine ⟨bufs₁ ++ bufs₂, by rw [hs₂, hs₁, List.append_assoc], fun b hb => ?_⟩
  exact (List.mem_append.1 hb).elim (hb₁ b) (hb₂ b)

theorem ReadOnly.trans {s₁ s₂ s₃ : OtpState} (h₁ : ReadOnly s₁ s₂) (h₂ : ReadOnly s₂ s₃) :
    ReadOnly s₁ s₃ :=
  ⟨h₂.otp.trans h₁.otp, sent_trans h₁.sent h₂.sent⟩

/-- The environment lets every request with this buffer succeed. -/
def OtpEnv.Grants (env : OtpEnv) (buf : List Word) : Prop :=
  ∀ n, (env.answer n buf).openError = none ∧ (env.answer n buf).ioctlError = none ∧
    (env.answer n buf).status = kRequestSucceeded ∧ (env.answer n buf).handled = true

/-- Reads do not fail. -/
def OtpEnv.ReadsSucceed (env : OtpEnv) : Prop := ∀ buf, isWrite buf = false → env.Grants buf

section

variable {env : OtpEnv} {s : OtpState}

/-- A call that does not get through changes nothing; one that does is the firmware's. -/
theorem ends_mboxProperty {device : String} {tag valueBytes : Word} {value : List Word} {n : ℕ}
    (hn : ((valueBytes + 3) / 4).toNat = n) (hv : value.length ≤ n) :
    Ends (mboxProperty env device tag valueBytes value) s fun r s' =>
      let buf := mboxBuffer tag valueBytes (value ++ List.replicate (n - value.length) 0)
      (s'.otp = s.otp ∧ s'.sent = s.sent ∧
        ∃ f, r = .error f ∧ f.kind = .mailbox ∧ ¬ env.Grants buf) ∨
      ∃ blown, s'.otp = (firmware blown s.otp buf).1 ∧ s'.sent = s.sent ++ [buf] ∧
        ((∃ f, r = .error f ∧ f.kind = .mailbox ∧ ¬ env.Grants buf) ∨
          r = .ok ((firmware blown s.otp buf).2.take n)) := by
  unfold Ends mboxProperty
  rw [hn]
  dsimp only
  rw [List.take_of_length_le hv]
  generalize mboxBuffer tag valueBytes (value ++ List.replicate (n - value.length) 0) = buf
  cases ho : (env.answer s.calls buf).openError with
  | some e => exact .inl ⟨rfl, rfl, _, rfl, rfl, fun hg => by simp [(hg s.calls).1] at ho⟩
  | none =>
    refine .inr ⟨(env.answer s.calls buf).blown, ?_⟩
    cases hi : (env.answer s.calls buf).ioctlError with
    | some e => exact ⟨rfl, rfl, .inl ⟨_, rfl, rfl, fun hg => by simp [(hg s.calls).2.1] at hi⟩⟩
    | none =>
      split_ifs with hs hh
      · exact ⟨rfl, rfl, .inl ⟨_, rfl, rfl, fun hg => hs (hg s.calls).2.2.1⟩⟩
      · exact ⟨rfl, rfl, .inl ⟨_, rfl, rfl, fun hg => by simp [(hg s.calls).2.2.2] at hh⟩⟩
      · exact ⟨rfl, rfl, .inr rfl⟩

/-- A call that the firmware answers without a write. -/
theorem ends_readCall {device : String} {tag valueBytes : Word} {value out : List Word} {n : ℕ}
    (hn : ((valueBytes + 3) / 4).toNat = n) (hv : value.length ≤ n)
    (hw : isWrite (mboxBuffer tag valueBytes (value ++ List.replicate (n - value.length) 0)) = false)
    (hf : ∀ blown, firmware blown s.otp
      (mboxBuffer tag valueBytes (value ++ List.replicate (n - value.length) 0)) = (s.otp, out)) :
    Ends (mboxProperty env device tag valueBytes value) s fun r s' => ReadOnly s s' ∧
      match r with
      | .ok v => v = out.take n
      | .error f => f.kind = .mailbox ∧ ¬ env.ReadsSucceed := by
  refine (ends_mboxProperty hn hv).mono fun r s' h => ?_
  obtain ⟨hotp, hsent, f, rfl, hk, hg⟩ | ⟨blown, hotp, hsent, hr⟩ := h
  · exact ⟨⟨hotp, [], by simp [hsent], by simp⟩, hk, fun hr => hg (hr _ hw)⟩
  · rw [hf blown] at hotp hr
    refine ⟨⟨hotp, _, hsent, fun b hb => by rw [List.mem_singleton.1 hb, hw]⟩, ?_⟩
    obtain ⟨f, rfl, hk, hg⟩ | rfl := hr
    · exact ⟨hk, fun hr => hg (hr _ hw)⟩
    · rfl

theorem ends_getCustomerMac (iface : MacInterface) :
    Ends (getCustomerMac env iface) s fun r s' => ReadOnly s s' ∧
      match r with
      | .ok mac => mac = s.otp.mac iface
      | .error f => f.kind = .mailbox ∧ ¬ env.ReadsSucceed := by
  have hread : Ends (mboxProperty env kVcio (kTagGetCustomerMac + macTagOffset iface)
      kMacValueBytes [0, 0]) s fun r s' => ReadOnly s s' ∧
      match r with
      | .ok v => v = (macToWords (s.otp.mac iface)).take 2
      | .error f => f.kind = .mailbox ∧ ¬ env.ReadsSucceed :=
    ends_readCall rfl le_rfl (by cases iface <;> decide) fun blown => by cases iface <;> rfl
  refine hread.bind (fun value s' h => ⟨h.1, ?_⟩) fun f s' h => h
  rw [h.2]
  exact macFromWords_macToWords _

theorem ends_readNvmemRows (start count : ℕ) :
    Ends (readNvmemRows env start count) s fun r s' => ReadOnly s s' ∧
      (r = .ok none ∨ r = .ok (some (s.otp.rows start count))) := by
  refine ⟨⟨rfl, [], by simp [readNvmemRows], by simp⟩, ?_⟩
  unfold readNvmemRows
  dsimp only
  split_ifs
  · exact .inr rfl
  · exact .inl rfl

theorem firmware_getCustomerOtp {start count : Word} (h : InRegion start count) (blown : ℕ → Word)
    (otp : Otp) :
    firmware blown otp (mboxBuffer kTagGetCustomerOtp (8 + count * 4)
      ([start, count] ++ List.replicate (count.toNat + 2 - 2) 0)) =
      (otp, [start, count] ++ otp.rows start.toNat count.toNat) := by
  have hv := @bufValue_mboxBuffer kTagGetCustomerOtp (8 + count * 4)
    ([start, count] ++ List.replicate (count.toNat + 2 - 2) 0) (by
      rw [words_customer h]
      simp)
  unfold firmware
  rw [hv, bufTag_mboxBuffer]
  rfl

theorem length_rows (otp : Otp) (start count : ℕ) : (otp.rows start count).length = count := by
  simp [Otp.rows]

/-- The customer rows of a region are read as they are, without a write. -/
theorem ends_readCustomerOtp (start count : Word) :
    Ends (readCustomerOtp env start count) s fun r s' => ReadOnly s s' ∧
      match r with
      | .ok rows => InRegion start count ∧ rows = s.otp.rows start.toNat count.toNat
      | .error f => (f.kind = .check ∧ ¬ InRegion start count) ∨
          f.kind = .mailbox ∧ ¬ env.ReadsSucceed := by
  unfold readCustomerOtp
  split_ifs with h0 hr
  · exact ends_fail ⟨.refl s, .inl ⟨rfl, fun h => (inRegion_iff.1 h).1 h0⟩⟩
  · exact ends_fail ⟨.refl s, .inl ⟨rfl, fun h => (inRegion_iff.1 h).2 hr⟩⟩
  · have hin : InRegion start count := inRegion_iff.2 ⟨h0, hr⟩
    refine (ends_readNvmemRows _ _).bind (fun rows s₁ h => ?_) fun f s₁ h => ?_
    · obtain ⟨hq, hnone | hsome⟩ := h
      · cases hnone
        have hread := @ends_readCall env s₁ kVcio kTagGetCustomerOtp _ [start, count] _ _
          (words_customer hin) (by simp) (by rw [isWrite, bufTag_mboxBuffer]; decide)
          fun blown => firmware_getCustomerOtp hin blown s₁.otp
        refine hread.bind (fun value s₂ h => ⟨hq.trans h.1, hin, ?_⟩) fun f s₂ h =>
          ⟨hq.trans h.1, .inr h.2⟩
        rw [h.2, hq.otp, List.take_of_length_le (by simp [length_rows])]
        exact List.take_of_length_le (length_rows _ _ _).le
      · cases hsome
        exact ⟨hq, hin, rfl⟩
    · obtain ⟨-, hnone | hsome⟩ := h
      · cases hnone
      · cases hsome

end

/-! ### Requests -/

/-- What `oem otp set` and `oem mac set` ask for. The words of a command are far fewer than
`2 ^ 32`. -/
inductive OtpRequest
  | otpSet (start : Word) (values : List Word) (fits : values.length < 2 ^ 32)
  | macSet (iface : MacInterface) (mac : Mac)

namespace OtpRequest

def perform (env : OtpEnv) : OtpRequest → OtpM WriteOutcome
  | otpSet start values _ => writeCustomerOtp env start values
  | macSet iface mac => setCustomerMac env iface mac

/-- The request is about this customer row. -/
def OnRow (r : OtpRequest) (row : Fin 8) : Prop :=
  match r with
  | otpSet start values _ => start.toNat ≤ row ∧ row < start.toNat + values.length
  | macSet _ _ => False

/-- The request is about the address of this interface. -/
def OnMac (r : OtpRequest) (iface : MacInterface) : Prop :=
  match r with
  | otpSet _ _ _ => False
  | macSet i _ => iface = i

/-- The request passes its checks, and the memory holds what it asks for. -/
def Holds (r : OtpRequest) (otp : Otp) : Prop :=
  match r with
  | otpSet start values _ =>
    InRegion start (BitVec.ofNat 32 values.length) ∧ otp.rows start.toNat values.length = values
  | macSet iface mac => validateMac mac = .ok () ∧ otp.mac iface = mac

end OtpRequest

/-- A request to write customer rows stays within them. -/
def InBounds (buf : List Word) : Prop :=
  bufTag buf = kTagSetCustomerOtp →
    InRegion ((bufValue buf).getD 0 0) ((bufValue buf).getD 1 0)

/-- What a request may have done when it ends, with a result or a failure. -/
structure Safe (r : OtpRequest) (s : OtpState) (res : Except Failure WriteOutcome)
    (s' : OtpState) : Prop where
  customer : ∀ row, s.otp.customer row ≠ 0 → s'.otp.customer row = s.otp.customer row
  mac : ∀ iface, macIsBlank (s.otp.mac iface) = false → s'.otp.mac iface = s.otp.mac iface
  otherRows : ∀ row, ¬ r.OnRow row → s'.otp.customer row = s.otp.customer row
  otherMacs : ∀ iface, ¬ r.OnMac iface → s'.otp.mac iface = s.otp.mac iface
  locked : s'.otp.locked = s.otp.locked
  holds : ∀ outcome, res = .ok outcome → r.Holds s'.otp
  refused : ∀ f, res = .error f → f.kind = .check → s'.otp = s.otp
  sent : ∃ bufs, s'.sent = s.sent ++ bufs ∧ ∀ b ∈ bufs, InBounds b

section

variable {env : OtpEnv} {s s' : OtpState}

theorem inBounds_of_not_isWrite {buf : List Word} (h : isWrite buf = false) : InBounds buf := by
  intro ht
  simp [isWrite, ht] at h

theorem ReadOnly.inBounds (h : ReadOnly s s') :
    ∃ bufs, s'.sent = s.sent ++ bufs ∧ ∀ b ∈ bufs, InBounds b := by
  obtain ⟨bufs, hs, hb⟩ := h.sent
  exact ⟨bufs, hs, fun b hm => inBounds_of_not_isWrite (hb b hm)⟩

/-- A request that has written nothing is safe, as long as a success is true. -/
theorem ReadOnly.safe {r : OtpRequest} {res : Except Failure WriteOutcome} (h : ReadOnly s s')
    (hres : ∀ outcome, res = .ok outcome → r.Holds s.otp) : Safe r s res s' where
  customer _ _ := by rw [h.otp]
  mac _ _ := by rw [h.otp]
  otherRows _ _ := by rw [h.otp]
  otherMacs _ _ := by rw [h.otp]
  locked := by rw [h.otp]
  holds outcome ho := by
    rw [h.otp]
    exact hres outcome ho
  refused _ _ _ := h.otp
  sent := h.inBounds

theorem conflict_spec {start : Word} {current values : List Word} {i : ℕ} :
    match conflict start current values i with
    | some f => f.kind = .check
    | none => ∀ (k : ℕ) (c v : Word), current[k]? = some c → values[k]? = some v → c = v ∨ c = 0 := by
  induction current generalizing values i with
  | nil => simp [conflict]
  | cons c current ih =>
    cases values with
    | nil => simp [conflict]
    | cons v values =>
      rw [conflict]
      by_cases hc : c ≠ v ∧ c ≠ 0
      · rw [if_pos hc]
      · rw [if_neg hc]
        have := @ih values (i + 1)
        split at this
        · exact this
        · intro k c' v' hc' hv'
          cases k with
          | zero =>
            cases hc'
            cases hv'
            tauto
          | succ k => exact this k c' v' hc' hv'

theorem mismatch_spec {start : Word} {written values : List Word} {i : ℕ}
    (hlen : written.length = values.length) :
    match mismatch start written values i with
    | some f => f.kind = .readBack
    | none => written = values := by
  induction written generalizing values i with
  | nil => simpa [mismatch] using (List.eq_nil_of_length_eq_zero hlen.symm).symm
  | cons w written ih =>
    cases values with
    | nil => cases hlen
    | cons v values =>
      rw [mismatch]
      by_cases hw : w = v
      · rw [if_neg (not_not.2 hw), hw]
        have := @ih values (i + 1) (Nat.succ.inj hlen)
        split at this
        · exact this
        · rw [this]
      · rw [if_pos hw]

theorem or_and_self_left (x y : Word) : x ||| (x &&& y) = x := by
  ext i hi
  simpa using fun h _ => h

/-- The state after a call that may have ORed words into the rows from `start` on. -/
structure OrRows (start : ℕ) (values : List Word) (s s' : OtpState) : Prop where
  rows : ∀ row : Fin 8, start ≤ row → row < start + values.length →
    ∃ blown, s'.otp.customer row = s.otp.customer row ||| (values.getD (row - start) 0 &&& blown)
  otherRows : ∀ row : Fin 8, ¬ (start ≤ row ∧ row < start + values.length) →
    s'.otp.customer row = s.otp.customer row
  mac : s'.otp.mac = s.otp.mac
  locked : s'.otp.locked = s.otp.locked
  sent : ∃ bufs, s'.sent = s.sent ++ bufs ∧ ∀ b ∈ bufs, InBounds b

theorem toNat_ofNat_length {values : List Word} (h : values.length < 2 ^ 32) :
    (BitVec.ofNat 32 values.length).toNat = values.length := by
  rw [BitVec.toNat_ofNat, Nat.mod_eq_of_lt h]

/-- The call that writes customer rows. -/
theorem ends_setCustomerOtp {device : String} {start : Word} {values : List Word}
    (hfits : values.length < 2 ^ 32) (hin : InRegion start (BitVec.ofNat 32 values.length)) :
    Ends (mboxProperty env device kTagSetCustomerOtp (8 + BitVec.ofNat 32 values.length * 4)
      ([start, BitVec.ofNat 32 values.length] ++ values)) s fun r s' =>
      OrRows start.toNat values s s' ∧ ∀ f, r = .error f → f.kind = .mailbox := by
  have hcount := toNat_ofNat_length hfits
  have hwords := words_customer hin
  rw [hcount] at hwords
  have hlen : ([start, BitVec.ofNat 32 values.length] ++ values).length = values.length + 2 := by
    simp
  have hvalue := @bufValue_mboxBuffer kTagSetCustomerOtp (8 + BitVec.ofNat 32 values.length * 4)
    ([start, BitVec.ofNat 32 values.length] ++ values) (by rw [hwords, hlen])
  have hbounds : InBounds (mboxBuffer kTagSetCustomerOtp (8 + BitVec.ofNat 32 values.length * 4)
      ([start, BitVec.ofNat 32 values.length] ++ values)) := by
    intro _
    rw [hvalue]
    exact hin
  have hfirmware (blown : ℕ → Word) (otp : Otp) :
      (firmware blown otp (mboxBuffer kTagSetCustomerOtp (8 + BitVec.ofNat 32 values.length * 4)
        ([start, BitVec.ofNat 32 values.length] ++ values))).1 =
        otp.orRows start.toNat values.length fun i => values.getD i 0 &&& blown i := by
    have hlock : start ≠ kLockRow := by
      rintro rfl
      have hrow : kLockRow.toNat = 2 ^ 32 - 1 := rfl
      have := hin.2
      omega
    unfold firmware
    rw [hvalue, bufTag_mboxBuffer]
    simp only [List.cons_append, List.nil_append, List.getD_cons_zero, List.getD_cons_succ,
      if_neg hlock, hcount]
    rw [if_neg (by decide), if_true]
    have hshift (i : ℕ) : (start :: BitVec.ofNat 32 values.length :: values).getD (2 + i) 0 =
        values.getD i 0 := by
      rw [Nat.add_comm]
      rfl
    simp only [hshift]
  refine (ends_mboxProperty hwords hlen.le).mono fun r s' h => ?_
  rw [hlen, Nat.sub_self, List.replicate_zero, List.append_nil] at h
  obtain ⟨hotp, hsent, f, rfl, hk, -⟩ | ⟨blown, hotp, hsent, hr⟩ := h
  · refine ⟨⟨fun row _ _ => ⟨0, by simp [hotp]⟩, fun row _ => by rw [hotp], by rw [hotp],
      by rw [hotp], [], by simp [hsent], by simp⟩, fun g hg => ?_⟩
    cases hg
    exact hk
  · rw [hfirmware] at hotp
    refine ⟨⟨fun row h1 h2 => ⟨blown (row - start.toNat), ?_⟩, fun row hrow => ?_, by rw [hotp]; rfl,
      by rw [hotp]; rfl, _, hsent, fun b hb => by rw [List.mem_singleton.1 hb]; exact hbounds⟩, ?_⟩
    · rw [hotp]
      exact if_pos ⟨h1, h2⟩
    · rw [hotp]
      exact if_neg hrow
    · rintro g rfl
      obtain ⟨f, hf, hk, -⟩ | hok := hr
      · cases hf
        exact hk
      · cases hok

theorem getElem?_rows (otp : Otp) (start : ℕ) {count : ℕ} (row : Fin 8) (h1 : start ≤ row)
    (h2 : row < start + count) : (otp.rows start count)[row - start]? = some (otp.customer row) := by
  have hlt : row - start < count := by omega
  have hrow : start + (row - start) = row := by omega
  simp [Otp.rows, hlt, hrow]

/-- A write over rows that are blank or hold the value already. -/
theorem OrRows.safe {start : Word} {values : List Word} {hfits : values.length < 2 ^ 32}
    {res : Except Failure WriteOutcome} {s₁ s₂ s₃ : OtpState} (hq : ReadOnly s s₁)
    (ho : OrRows start.toNat values s₁ s₂) (hq' : ReadOnly s₂ s₃)
    (hrows : ∀ (k : ℕ) (c v : Word), (s.otp.rows start.toNat values.length)[k]? = some c →
      values[k]? = some v → c = v ∨ c = 0)
    (hok : ∀ outcome, res = .ok outcome →
      InRegion start (BitVec.ofNat 32 values.length) ∧
        s₃.otp.rows start.toNat values.length = values)
    (herr : ∀ f, res = .error f → f.kind ≠ .check) : Safe (.otpSet start values hfits) s res s₃ where
  customer row hrow := by
    rw [hq'.otp]
    by_cases hon : start.toNat ≤ row ∧ row < start.toNat + values.length
    · obtain ⟨blown, hb⟩ := ho.rows row hon.1 hon.2
      rw [hb, hq.otp]
      have hlt : row - start.toNat < values.length := by omega
      have hv : values[row - start.toNat]? = some (values.getD (row - start.toNat) 0) := by
        simp [hlt]
      obtain hc | hc := hrows _ _ _ (getElem?_rows s.otp start.toNat row hon.1 hon.2) hv
      · rw [← hc, or_and_self_left]
      · exact (hrow hc).elim
    · rw [ho.otherRows row hon, hq.otp]
  mac iface _ := by rw [hq'.otp, ho.mac, hq.otp]
  otherRows row hrow := by rw [hq'.otp, ho.otherRows row hrow, hq.otp]
  otherMacs iface _ := by rw [hq'.otp, ho.mac, hq.otp]
  locked := by rw [hq'.otp, ho.locked, hq.otp]
  holds := hok
  refused f hf hk := (herr f hf hk).elim
  sent := sent_trans (sent_trans hq.inBounds ho.sent) hq'.inBounds

/-- Programming customer rows is safe. -/
theorem ends_writeCustomerOtp (start : Word) (values : List Word) (hfits : values.length < 2 ^ 32) :
    Ends (writeCustomerOtp env start values) s (Safe (.otpSet start values hfits) s) := by
  have hcount := toNat_ofNat_length hfits
  refine (ends_readCustomerOtp start _).bind (fun current s₁ h => ?_) fun f s₁ h => ?_
  · obtain ⟨hq, hin, rfl⟩ := h
    rw [hcount]
    have hconflict := @conflict_spec start (s.otp.rows start.toNat values.length) values 0
    cases hc : conflict start (s.otp.rows start.toNat values.length) values 0 with
    | some f => exact ends_fail (hq.safe fun _ h => by cases h)
    | none =>
      simp only [hc] at hconflict ⊢
      split_ifs with hmatch
      · exact ends_pure (hq.safe fun _ _ => ⟨hin, hmatch⟩)
      · refine (ends_setCustomerOtp hfits hin).bind (fun _ s₂ h => ?_) fun f s₂ h => ?_
        · refine (ends_readCustomerOtp start _).bind (fun written s₃ h' => ?_) fun f s₃ h' => ?_
          · obtain ⟨hq', -, rfl⟩ := h'
            rw [hcount]
            have hmis := @mismatch_spec start (s₂.otp.rows start.toNat values.length) values 0
              (length_rows _ _ _)
            cases hm : mismatch start (s₂.otp.rows start.toNat values.length) values 0 with
            | some f =>
              rw [hm] at hmis
              refine ends_fail (h.1.safe hq hq' hconflict (fun _ h => by cases h) ?_)
              rintro g hg
              cases hg
              rw [hmis]
              decide
            | none =>
              rw [hm] at hmis
              exact ends_pure (h.1.safe hq hq' hconflict
                (fun _ _ => ⟨hin, by rw [hq'.otp]; exact hmis⟩) fun _ h => by cases h)
          · obtain ⟨hq', hk | hk⟩ := h'
            · exact (hk.2 hin).elim
            · refine h.1.safe hq hq' hconflict (fun _ h => by cases h) ?_
              rintro g hg
              cases hg
              rw [hk.1]
              decide
        · refine h.1.safe hq (.refl s₂) hconflict (fun _ h => by cases h) ?_
          rintro g hg
          cases hg
          rw [h.2 f rfl]
          decide
  · exact h.1.safe fun _ h => by cases h

/-- The state after a call that may have changed the address of an interface. -/
structure OrMac (iface : MacInterface) (s s' : OtpState) : Prop where
  customer : s'.otp.customer = s.otp.customer
  otherMacs : ∀ i, i ≠ iface → s'.otp.mac i = s.otp.mac i
  locked : s'.otp.locked = s.otp.locked
  sent : ∃ bufs, s'.sent = s.sent ++ bufs ∧ ∀ b ∈ bufs, InBounds b

/-- The call that writes an address. -/
theorem ends_setMac {device : String} (iface : MacInterface) (mac : Mac) :
    Ends (mboxProperty env device (kTagSetCustomerMac + macTagOffset iface) kMacValueBytes
      (macToWords mac)) s fun r s' =>
      OrMac iface s s' ∧ ∀ f, r = .error f → f.kind = .mailbox := by
  have hbounds : InBounds (mboxBuffer (kTagSetCustomerMac + macTagOffset iface) kMacValueBytes
      (macToWords mac)) := by
    intro ht
    rw [bufTag_mboxBuffer] at ht
    cases iface <;> exact absurd ht (by decide)
  have hfirmware (blown : ℕ → Word) (otp : Otp) : ∃ mac',
      (firmware blown otp (mboxBuffer (kTagSetCustomerMac + macTagOffset iface) kMacValueBytes
        (macToWords mac))).1 = otp.orMac iface mac' := by
    cases iface <;> exact ⟨_, rfl⟩
  refine (ends_mboxProperty (n := 2) rfl le_rfl).mono fun r s' h => ?_
  obtain ⟨hotp, hsent, f, rfl, hk, -⟩ | ⟨blown, hotp, hsent, hr⟩ := h
  · refine ⟨⟨by rw [hotp], fun i _ => by rw [hotp], by rw [hotp], [], by simp [hsent], by simp⟩,
      fun g hg => ?_⟩
    cases hg
    exact hk
  · obtain ⟨mac', hmac⟩ := hfirmware blown s.otp
    replace hotp : s'.otp = s.otp.orMac iface mac' := hotp.trans hmac
    refine ⟨⟨by rw [hotp]; rfl, fun i hi => ?_, by rw [hotp]; rfl, _, hsent, fun b hb => ?_⟩, ?_⟩
    · rw [hotp]
      exact Function.update_of_ne hi _ _
    · rw [List.mem_singleton.1 hb]
      exact hbounds
    · rintro g rfl
      obtain ⟨f, hf, hk, -⟩ | hok := hr
      · cases hf
        exact hk
      · cases hok

/-- A write over a blank address. -/
theorem OrMac.safe {iface : MacInterface} {mac : Mac} {res : Except Failure WriteOutcome}
    {s₁ s₂ s₃ : OtpState} (hq : ReadOnly s s₁) (ho : OrMac iface s₁ s₂) (hq' : ReadOnly s₂ s₃)
    (hblank : macIsBlank (s.otp.mac iface)) (hok : ∀ outcome, res = .ok outcome →
      validateMac mac = .ok () ∧ s₃.otp.mac iface = mac)
    (herr : ∀ f, res = .error f → f.kind ≠ .check) : Safe (.macSet iface mac) s res s₃ where
  customer row _ := by rw [hq'.otp, ho.customer, hq.otp]
  mac i hi := by
    have hne : i ≠ iface := by
      rintro rfl
      rw [hblank] at hi
      cases hi
    rw [hq'.otp, ho.otherMacs i hne, hq.otp]
  otherRows row _ := by rw [hq'.otp, ho.customer, hq.otp]
  otherMacs i hi := by rw [hq'.otp, ho.otherMacs i hi, hq.otp]
  locked := by rw [hq'.otp, ho.locked, hq.otp]
  holds := hok
  refused f hf hk := (herr f hf hk).elim
  sent := sent_trans (sent_trans hq.inBounds ho.sent) hq'.inBounds

/-- Programming an address is safe. -/
theorem ends_setCustomerMac (iface : MacInterface) (mac : Mac) :
    Ends (setCustomerMac env iface mac) s (Safe (.macSet iface mac) s) := by
  unfold setCustomerMac
  cases hvalid : validateMac mac with
  | error f => exact ends_fail ((ReadOnly.refl s).safe fun _ h => by cases h)
  | ok _ =>
    refine (ends_getCustomerMac iface).bind (fun current s₁ h => ?_) fun f s₁ h =>
      h.1.safe fun _ h => by cases h
    obtain ⟨hq, rfl⟩ := h
    split_ifs with hmatch hblank
    · exact ends_pure (hq.safe fun _ _ => ⟨hvalid, hmatch⟩)
    · exact ends_fail (hq.safe fun _ h => by cases h)
    · have hblank : macIsBlank (s.otp.mac iface) := by simpa using hblank
      refine (ends_setMac iface mac).bind (fun _ s₂ h => ?_) fun f s₂ h => ?_
      · refine (ends_getCustomerMac iface).bind (fun written s₃ h' => ?_) fun f s₃ h' => ?_
        · obtain ⟨hq', rfl⟩ := h'
          split_ifs with hmis
          · refine ends_fail (h.1.safe hq hq' hblank (fun _ h => by cases h) ?_)
            rintro g hg hk
            cases hg
            cases hk
          · exact ends_pure (h.1.safe hq hq' hblank
              (fun _ _ => ⟨hvalid, by rw [hq'.otp]; exact not_not.1 hmis⟩) fun _ h => by cases h)
        · refine h.1.safe hq h'.1 hblank (fun _ h => by cases h) ?_
          rintro g hg
          cases hg
          rw [h'.2.1]
          decide
      · refine h.1.safe hq (.refl s₂) hblank (fun _ h => by cases h) ?_
        rintro g hg
        cases hg
        rw [h.2 f rfl]
        decide

/-- Every request is safe, from every state and in every environment. -/
theorem ends_perform (r : OtpRequest) : Ends (r.perform env) s (Safe r s) := by
  cases r with
  | otpSet start values fits => exact ends_writeCustomerOtp start values fits
  | macSet iface mac => exact ends_setCustomerMac iface mac

theorem conflict_self (start : Word) (values : List Word) (i : ℕ) :
    conflict start values values i = none := by
  induction values generalizing i with
  | nil => rfl
  | cons v values ih => simp [conflict, ih]

/-- What the memory holds already is not written again. -/
theorem ends_perform_of_holds (hr : env.ReadsSucceed) {r : OtpRequest} (h : r.Holds s.otp) :
    Ends (r.perform env) s fun res s' => res = .ok .alreadyMatches ∧ ReadOnly s s' := by
  cases r with
  | otpSet start values fits =>
    obtain ⟨hin, hrows⟩ := h
    refine (ends_readCustomerOtp start _).bind (fun current s₁ h => ?_) fun f s₁ h => ?_
    · obtain ⟨hq, -, rfl⟩ := h
      rw [toNat_ofNat_length fits, hrows, conflict_self]
      dsimp only
      rw [if_pos rfl]
      exact ends_pure ⟨rfl, hq⟩
    · obtain ⟨-, hk | hk⟩ := h
      · exact (hk.2 hin).elim
      · exact (hk.2 hr).elim
  | macSet iface mac =>
    obtain ⟨hvalid, hmac⟩ := h
    change Ends (setCustomerMac env iface mac) s _
    rw [setCustomerMac, hvalid]
    refine (ends_getCustomerMac iface).bind (fun current s₁ h => ?_) fun f s₁ h => ?_
    · obtain ⟨hq, rfl⟩ := h
      rw [if_pos hmac]
      exact ends_pure ⟨rfl, hq⟩
    · exact (h.2.2 hr).elim

end

/-! ### Runs -/

/-- The state after a sequence of requests. -/
def OtpRequest.run (env : OtpEnv) : List OtpRequest → OtpState → OtpState
  | [], s => s
  | r :: rs, s => run env rs (r.perform env s).2

/-- What no sequence of requests changes. -/
structure Kept (s s' : OtpState) : Prop where
  customer : ∀ row, s.otp.customer row ≠ 0 → s'.otp.customer row = s.otp.customer row
  mac : ∀ iface, macIsBlank (s.otp.mac iface) = false → s'.otp.mac iface = s.otp.mac iface
  locked : s'.otp.locked = s.otp.locked
  sent : ∃ bufs, s'.sent = s.sent ++ bufs ∧ ∀ b ∈ bufs, InBounds b

theorem kept_run (env : OtpEnv) (rs : List OtpRequest) (s : OtpState) :
    Kept s (OtpRequest.run env rs s) := by
  induction rs generalizing s with
  | nil => exact ⟨fun _ _ => rfl, fun _ _ => rfl, rfl, [], by simp [OtpRequest.run], by simp⟩
  | cons r rs ih =>
    have hstep := @ends_perform env s r
    have hrest := ih (r.perform env s).2
    refine ⟨fun row h => ?_, fun iface h => ?_, ?_, sent_trans hstep.sent hrest.sent⟩
    · have := hstep.customer row h
      rw [OtpRequest.run, hrest.customer row (by rw [this]; exact h), this]
    · have := hstep.mac iface h
      rw [OtpRequest.run, hrest.mac iface (by rw [this]; exact h), this]
    · rw [OtpRequest.run, hrest.locked, hstep.locked]

/-- After any sequence of requests on any memory: programmed rows and addresses stay as they are,
whatever is requested next; a success leaves the requested values and nothing else, and repeating
it finds them without a write; a refused request changes nothing; and every write sent so far has
stayed within the customer rows. -/
theorem otp_requests_safe (env : OtpEnv) (otp : Otp) (rs : List OtpRequest) :
    let s := OtpRequest.run env rs { otp }
    (∀ rs', (∀ row, s.otp.customer row ≠ 0 →
        (OtpRequest.run env rs' s).otp.customer row = s.otp.customer row) ∧
      ∀ iface, macIsBlank (s.otp.mac iface) = false →
        (OtpRequest.run env rs' s).otp.mac iface = s.otp.mac iface) ∧
    (∀ (r : OtpRequest) outcome s', r.perform env s = (.ok outcome, s') →
      r.Holds s'.otp ∧ (∀ row, ¬ r.OnRow row → s'.otp.customer row = s.otp.customer row) ∧
      (∀ iface, ¬ r.OnMac iface → s'.otp.mac iface = s.otp.mac iface) ∧
      (env.ReadsSucceed →
        ∃ s'', r.perform env s' = (.ok .alreadyMatches, s'') ∧ ReadOnly s' s'')) ∧
    (∀ (r : OtpRequest) f s', r.perform env s = (.error f, s') → f.kind = .check → s'.otp = s.otp) ∧
    (∀ buf ∈ s.sent, InBounds buf) ∧ s.otp.locked = otp.locked := by
  intro s
  refine ⟨fun rs' => ⟨(kept_run env rs' s).customer, (kept_run env rs' s).mac⟩,
    fun r outcome s' h => ?_, fun r f s' h hk => ?_, ?_, (kept_run env rs { otp }).locked⟩
  · have hsafe := @ends_perform env s r
    rw [Ends, h] at hsafe
    have hholds := hsafe.holds outcome rfl
    refine ⟨hholds, hsafe.otherRows, hsafe.otherMacs, fun hr => ?_⟩
    obtain ⟨hres, hq⟩ := ends_perform_of_holds hr hholds
    exact ⟨_, Prod.ext hres rfl, hq⟩
  · have hsafe := @ends_perform env s r
    rw [Ends, h] at hsafe
    exact hsafe.refused f rfl hk
  · obtain ⟨bufs, hsent, hb⟩ := (kept_run env rs { otp }).sent
    intro buf hbuf
    rw [hsent] at hbuf
    exact hb buf (by simpa using hbuf)

end RpiFastbootd
