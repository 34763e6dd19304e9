import RpiFastbootd.Lib.Runs
import RpiFastbootd.Fastboot.Types

/-!
# The device key

The firmware keeps the private key of the device in a slot that can be provisioned once and whose
raw key can be locked until the next boot.  The daemon reads the provisioning status once, keeps it,
and tries to lock a provisioned slot at start-up; `oem fwcrypto init` provisions and locks a blank
one.  `init` also reports success for a slot that has a key already, without looking at its lock
(`fwcryptoInit_seals_iff`).  The private key itself is never sent: the cached status "not
provisioned" is only ever held about a blank slot (`no_private_key_sent`).
-/

namespace RpiFastbootd

inductive FwStatus
  | keyNotSet
  | keyNotBlank
  | operationFailed
  | errorUnknown
  | other (code : ℕ)
  deriving DecidableEq, Repr

/-- The flags of a key status that the daemon looks at. -/
structure KeyStatus where
  deviceKey : Bool
  readLocked : Bool

/-- A slot: its private key, if it is provisioned, and whether the raw key is locked. -/
structure KeySlot (Key : Type) where
  key : Option Key
  readLocked : Bool

/-- The firmware library.  Every call may fail, and the failures may depend on all that has been
called before; a failed call changes nothing. -/
structure Firmware (Key : Type) where
  State : Type
  slot : State → KeySlot Key
  getKeyStatus : State → Except FwStatus KeyStatus × State
  setKeyStatus : KeyStatus → State → Except FwStatus Unit × State
  genEcdsaKey : State → Except FwStatus Unit × State
  getPubkey : State → Except FwStatus String × State
  getPrivateKey : State → Except FwStatus Key × State
  strerror : FwStatus → String
  getKeyStatus_slot : ∀ s, slot (getKeyStatus s).2 = slot s
  getKeyStatus_ok : ∀ s status, (getKeyStatus s).1 = .ok status →
    status.readLocked = (slot s).readLocked ∧ ((slot s).key.isSome → status.deviceKey)
  setKeyStatus_ok : ∀ status s, (setKeyStatus status s).1 = .ok () →
    slot (setKeyStatus status s).2 = { slot s with readLocked := status.readLocked }
  setKeyStatus_error : ∀ status s e, (setKeyStatus status s).1 = .error e →
    slot (setKeyStatus status s).2 = slot s
  genEcdsaKey_ok : ∀ s, (genEcdsaKey s).1 = .ok () → (slot (genEcdsaKey s).2).key.isSome
  genEcdsaKey_error : ∀ s e, (genEcdsaKey s).1 = .error e → slot (genEcdsaKey s).2 = slot s
  getPubkey_slot : ∀ s, slot (getPubkey s).2 = slot s
  /-- Only a blank slot has no public key for that reason. -/
  getPubkey_keyNotSet : ∀ s, (getPubkey s).1 = .error .keyNotSet → (slot s).key = none
  getPrivateKey_slot : ∀ s, slot (getPrivateKey s).2 = slot s
  getPrivateKey_ok : ∀ s k, (getPrivateKey s).1 = .ok k → (slot s).key = some k

/-- What the start-up pass has recorded. -/
inductive OtpLockStatus
  | ok
  | notProvisioned
  | readFailed (e : FwStatus)
  | lockFailed (e : FwStatus)
  deriving DecidableEq, Repr

def OtpLockStatus.isSafe : OtpLockStatus → Bool
  | .ok | .notProvisioned => true
  | .readFailed _ | .lockFailed _ => false

/-- The firmware and what the process keeps: whether the status has been read, the status, and the
outcome of the start-up pass. -/
structure KeyWorld {Key : Type} (fw : Firmware Key) where
  state : fw.State
  initialised : Bool := false
  cached : Except FwStatus Bool := .error .errorUnknown
  otpLockStatus : OtpLockStatus := .ok

section

variable {Key : Type} (fw : Firmware Key)

/-! ### The wrapper of the library -/

def isKeyProvisioned (s : fw.State) : Except FwStatus Bool × fw.State :=
  match fw.getKeyStatus s with
  | (.error e, s) => (.error e, s)
  | (.ok status, s) =>
    if !status.deviceKey then (.ok false, s)
    else match fw.getPubkey s with
      | (.ok _, s) => (.ok true, s)
      | (.error e, s) => (if e = .keyNotSet then .ok false else .error e, s)

def lockKey (s : fw.State) : Except FwStatus Unit × fw.State :=
  match fw.getKeyStatus s with
  | (.error e, s) => (.error e, s)
  | (.ok status, s) =>
    if status.readLocked then (.ok (), s)
    else fw.setKeyStatus { status with readLocked := true } s

def isKeyLocked (s : fw.State) : Bool × fw.State :=
  match fw.getKeyStatus s with
  | (.error _, s) => (false, s)
  | (.ok status, s) => (status.readLocked, s)

/-- `GetPrivateKey`; the key that the firmware returns may not decode. -/
def getPrivateKey (decodes : Key → Bool) (s : fw.State) : Except FwStatus Key × fw.State :=
  match fw.getPrivateKey s with
  | (.error e, s) => (.error e, s)
  | (.ok k, s) => (if decodes k then .ok k else .error .operationFailed, s)

variable {fw}

namespace KeyWorld

def refreshProvisioningStatus (w : KeyWorld fw) : KeyWorld fw :=
  let (cached, state) := isKeyProvisioned fw w.state
  { w with cached, state }

/-- The constructor of `RpiFwCrypto` reads the status the first time. -/
def construct (w : KeyWorld fw) : KeyWorld fw :=
  if w.initialised then w else refreshProvisioningStatus { w with initialised := true }

/-- `LockOtpKeyAtStartup`, which runs once. -/
def lockOtpKeyAtStartup (w : KeyWorld fw) : KeyWorld fw :=
  let w := w.construct
  match w.cached with
  | .error e => { w with otpLockStatus := .readFailed e }
  | .ok false => { w with otpLockStatus := .notProvisioned }
  | .ok true =>
    let (locked, state) := isKeyLocked fw w.state
    let w := { w with state }
    if locked then { w with otpLockStatus := .ok }
    else match lockKey fw w.state with
      | (.error e, state) => { w with state, otpLockStatus := .lockFailed e }
      | (.ok (), state) => { w with state, otpLockStatus := .ok }

/-! ### The commands -/

/-- `oem fwcrypto status`. -/
def fwcryptoStatus (w : KeyWorld fw) : Response × KeyWorld fw :=
  let w := w.construct
  match w.cached with
  | .error _ => (⟨.fail, "Failed to get key status"⟩, w)
  | .ok true => (⟨.okay, "Key is provisioned"⟩, w)
  | .ok false => (⟨.okay, "Key is not provisioned"⟩, w)

/-- `oem fwcrypto init`. -/
def fwcryptoInit (w : KeyWorld fw) : Response × KeyWorld fw :=
  let w := w.construct
  match w.cached with
  | .ok true => (⟨.okay, "Key already provisioned"⟩, w)
  | _ =>
    match fw.genEcdsaKey w.state with
    | (.error e, state) =>
      let w := { w with state }
      if e = .keyNotBlank then (⟨.okay, "Key already provisioned"⟩, w.refreshProvisioningStatus)
      else (⟨.fail, "Failed to provision key: " ++ fw.strerror e⟩, w)
    | (.ok (), state) =>
      let w := { w with state }.refreshProvisioningStatus
      match lockKey fw w.state with
      | (.error _, state) =>
        (⟨.fail, "Key provisioned but LOCK failed — refusing to report success; " ++
          "reboot and retry"⟩, { w with state })
      | (.ok (), state) => (⟨.okay, "Key provisioned and LOCKed"⟩, { w with state })

end KeyWorld

/-! ### The slot under the wrapper -/

theorem slot_isKeyProvisioned (s : fw.State) : fw.slot (isKeyProvisioned fw s).2 = fw.slot s := by
  have hs := fw.getKeyStatus_slot s
  unfold isKeyProvisioned
  split
  next heq => rwa [heq] at hs
  next s₁ heq =>
    rw [heq] at hs
    split_ifs
    · exact hs
    · have hp := fw.getPubkey_slot s₁
      split
      next heq => rw [heq] at hp; exact hp.trans hs
      next heq => rw [heq] at hp; exact hp.trans hs

/-- "Not provisioned" is only said of a blank slot. -/
theorem blank_of_isKeyProvisioned {s : fw.State} (h : (isKeyProvisioned fw s).1 = .ok false) :
    (fw.slot s).key = none := by
  have hs := fw.getKeyStatus_slot s
  unfold isKeyProvisioned at h
  split at h
  · cases h
  next status s₁ heq =>
    have hstatus := fw.getKeyStatus_ok s status (by rw [heq])
    rw [heq] at hs
    split_ifs at h with hd
    · by_contra hkey
      rw [hstatus.2 (Option.isSome_iff_ne_none.2 hkey)] at hd
      cases hd
    · split at h
      · cases h
      next e s₂ hpub =>
        dsimp only at h
        split_ifs at h with he
        have hblank := fw.getPubkey_keyNotSet s₁ (by rw [hpub, he])
        rwa [show fw.slot s₁ = fw.slot s from hs] at hblank

theorem slot_lockKey {s : fw.State} (h : (lockKey fw s).1 = .ok ()) :
    fw.slot (lockKey fw s).2 = { fw.slot s with readLocked := true } := by
  have hs := fw.getKeyStatus_slot s
  unfold lockKey at h ⊢
  cases hstatus : fw.getKeyStatus s with
  | mk r s₁ =>
    rw [hstatus] at h hs
    cases r with
    | error e => cases h
    | ok status =>
      have hlocked := (fw.getKeyStatus_ok s status (by rw [hstatus])).1
      dsimp only at h hs ⊢
      split_ifs at h ⊢ with hl
      · rw [hs, ← hl, hlocked]
      · rw [fw.setKeyStatus_ok _ _ h, hs]

theorem key_lockKey (s : fw.State) : (fw.slot (lockKey fw s).2).key = (fw.slot s).key := by
  have hs := fw.getKeyStatus_slot s
  unfold lockKey
  split
  next heq => rw [heq] at hs; rw [hs]
  next status s₁ heq =>
    rw [heq] at hs
    split_ifs
    · rw [hs]
    · rw [← show fw.slot s₁ = fw.slot s from hs]
      cases hset : (fw.setKeyStatus { status with readLocked := true } s₁).1 with
      | error e => rw [fw.setKeyStatus_error _ _ e hset]
      | ok => rw [fw.setKeyStatus_ok _ _ hset]

namespace KeyWorld

variable (w : KeyWorld fw)

@[simp]
theorem slot_refreshProvisioningStatus :
    fw.slot w.refreshProvisioningStatus.state = fw.slot w.state :=
  slot_isKeyProvisioned w.state

@[simp]
theorem slot_construct : fw.slot w.construct.state = fw.slot w.state := by
  unfold construct
  split_ifs
  · rfl
  · exact slot_isKeyProvisioned w.state

end KeyWorld

/-! ### Success and the lock -/

/-- The slot has a key, and the raw key cannot be read. -/
def KeySlot.Sealed (slot : KeySlot Key) : Prop := slot.key.isSome ∧ slot.readLocked

/-- A success that `init` reports means a sealed slot exactly when the slot was sealed before, or
`init` neither finds the key in the cached status nor learns from the firmware that there is one. -/
theorem fwcryptoInit_seals_iff (w : KeyWorld fw) :
    (w.fwcryptoInit.1.result = .okay → (fw.slot w.fwcryptoInit.2.state).Sealed) ↔
      (fw.slot w.state).Sealed ∨ (w.construct.cached ≠ .ok true ∧
        (fw.genEcdsaKey w.construct.state).1 ≠ .error .keyNotBlank) := by
  have hslot := w.slot_construct
  unfold KeyWorld.fwcryptoInit
  generalize w.construct = w₀ at hslot ⊢
  rw [← hslot]
  dsimp only
  split
  next hcached => simp [hcached]
  next hcached =>
    have hc : w₀.cached ≠ .ok true := hcached
    cases hgen : fw.genEcdsaKey w₀.state with
    | mk r s =>
      cases r with
      | error e =>
        have hs := fw.genEcdsaKey_error w₀.state e (by rw [hgen])
        rw [hgen] at hs
        dsimp only at hs ⊢
        by_cases he : e = .keyNotBlank
        · simp [he, hs]
        · simp [he, hc]
      | ok =>
        -- The new key is locked before success is reported.
        have hkey := fw.genEcdsaKey_ok w₀.state (by rw [hgen])
        rw [hgen] at hkey
        refine iff_of_true ?_ (.inr ⟨hc, fun h => by cases h⟩)
        dsimp only
        split
        · intro h
          cases h
        next s' hlock =>
          intro _
          have hsealed := slot_lockKey (by rw [hlock])
          rw [hlock] at hsealed
          dsimp only at hsealed ⊢
          rw [hsealed, KeyWorld.slot_refreshProvisioningStatus]
          exact ⟨hkey, rfl⟩

end

/-- A firmware that refuses the first `refusals` changes of a key status. -/
structure SampleState where
  slot : KeySlot ℕ
  refusals : ℕ

def sampleFirmware : Firmware ℕ where
  State := SampleState
  slot s := s.slot
  getKeyStatus s := (.ok ⟨s.slot.key.isSome, s.slot.readLocked⟩, s)
  setKeyStatus status s :=
    match s.refusals with
    | n + 1 => (.error .operationFailed, { s with refusals := n })
    | 0 => (.ok (), { s with slot := { s.slot with readLocked := status.readLocked } })
  genEcdsaKey s :=
    if s.slot.key.isSome then (.error .keyNotBlank, s)
    else (.ok (), { s with slot := { s.slot with key := some 1 } })
  getPubkey s := (if s.slot.key.isSome then .ok "public" else .error .keyNotSet, s)
  getPrivateKey s :=
    (match s.slot.key with
      | none => .error .keyNotSet
      | some k => if s.slot.readLocked then .error .operationFailed else .ok k, s)
  strerror _ := "error"
  getKeyStatus_slot _ := rfl
  getKeyStatus_ok s status h := by
    cases h
    exact ⟨rfl, id⟩
  setKeyStatus_ok status s h := by
    dsimp only at h ⊢
    split at h
    · cases h
    next heq => rw [heq]
  setKeyStatus_error status s e h := by
    dsimp only at h ⊢
    split at h
    · rfl
    · cases h
  genEcdsaKey_ok s h := by
    dsimp only at h ⊢
    split_ifs at h ⊢
    rfl
  genEcdsaKey_error s e h := by
    dsimp only at h ⊢
    split_ifs at h ⊢
    rfl
  getPubkey_slot _ := rfl
  getPubkey_keyNotSet s h := by
    dsimp only at h
    split_ifs at h with hk
    simpa using hk
  getPrivateKey_slot _ := rfl
  getPrivateKey_ok s k h := by
    dsimp only at h
    split at h
    · cases h
    next heq =>
      split_ifs at h
      cases h
      exact heq

/-- A provisioned slot that the start-up pass could not lock. -/
def unlockedWorld : KeyWorld sampleFirmware :=
  KeyWorld.lockOtpKeyAtStartup { state := (⟨⟨some 1, false⟩, 1⟩ : SampleState) }

/-- `init` reports success while the raw key can be read. -/
theorem fwcryptoInit_okay_unlocked :
    ¬ (unlockedWorld.fwcryptoInit.1.result = .okay →
      (sampleFirmware.slot unlockedWorld.fwcryptoInit.2.state).Sealed) := by
  intro h
  exact Bool.false_ne_true (h rfl).2

/-! ### Replies and the private key -/

/-- A part of a reply: a text, or a private key. -/
inductive Piece (Key : Type)
  | text (s : String)
  | privateKey (k : Key)

structure KeyResponse (Key : Type) where
  result : FastbootResult
  message : List (Piece Key)

def Response.toKeyResponse {Key : Type} (r : Response) : KeyResponse Key :=
  ⟨r.result, [.text r.message]⟩

/-- A command that can see the device key.  The lines of `getvar all` about the other variables are
texts, some of them before the line of `private-key`. -/
inductive KeyCommand
  | init
  | status
  | getvarPrivateKey
  | getvarAll (above below : List String)

section

variable {Key : Type} {fw : Firmware Key}

namespace KeyWorld

/-- `GetPrivkey`. -/
def getPrivkey (decodes : Key → Bool) (w : KeyWorld fw) : List (Piece Key) × KeyWorld fw :=
  if !w.otpLockStatus.isSafe then ([.text "refused (otp-lock-status not safe)"], w)
  else
    let w := w.construct
    match w.cached with
    | .error _ => ([.text "error"], w)
    | .ok true => ([.text "refused"], w)
    | .ok false =>
      match getPrivateKey fw decodes w.state with
      | (.error _, state) => ([.text "error"], { w with state })
      | (.ok k, state) => ([.privateKey k], { w with state })

def execute (decodes : Key → Bool) (w : KeyWorld fw) :
    KeyCommand → Option (List (KeyResponse Key) × KeyWorld fw)
  | .init =>
    let (r, w) := w.fwcryptoInit
    some ([r.toKeyResponse], w)
  | .status =>
    let (r, w) := w.fwcryptoStatus
    some ([r.toKeyResponse], w)
  | .getvarPrivateKey =>
    let (message, w) := w.getPrivkey decodes
    some ([⟨.okay, message⟩], w)
  | .getvarAll above below =>
    let (message, w) := w.getPrivkey decodes
    some (above.map (fun s => ⟨.info, [.text s]⟩) ++
      [⟨.info, .text "private-key:" :: message⟩] ++
      below.map (fun s => ⟨.info, [.text s]⟩) ++ [⟨.okay, [.text ""]⟩], w)

/-- The cached status "not provisioned" is about a blank slot. -/
def Honest (w : KeyWorld fw) : Prop := w.cached = .ok false → (fw.slot w.state).key = none

variable {w : KeyWorld fw} {decodes : Key → Bool}

theorem honest_refresh (w : KeyWorld fw) : w.refreshProvisioningStatus.Honest := by
  intro h
  rw [slot_refreshProvisioningStatus]
  exact blank_of_isKeyProvisioned h

/-- The status has been read, and is honest. -/
def Settled (w : KeyWorld fw) : Prop := w.initialised ∧ w.Honest

theorem construct_of_settled (h : w.Settled) : w.construct = w := if_pos h.1

theorem settled_construct (w : KeyWorld fw) (h : w.initialised = false) : w.construct.Settled := by
  unfold construct
  rw [h]
  exact ⟨rfl, honest_refresh _⟩

theorem settled_lockOtpKeyAtStartup (w : KeyWorld fw) (h : w.initialised = false) :
    w.lockOtpKeyAtStartup.Settled := by
  have hw := settled_construct w h
  unfold lockOtpKeyAtStartup
  generalize w.construct = w₀ at hw ⊢
  dsimp only
  split
  · exact hw
  · exact hw
  next hcached =>
    have hnot {P : Prop} (hc : w₀.cached = .ok false) : P := by
      rw [hcached] at hc
      cases hc
    split_ifs
    · exact ⟨hw.1, fun hc => hnot hc⟩
    · split
      · exact ⟨hw.1, fun hc => hnot hc⟩
      · exact ⟨hw.1, fun hc => hnot hc⟩

theorem settled_fwcryptoInit (h : w.Settled) : w.fwcryptoInit.2.Settled := by
  unfold fwcryptoInit
  rw [construct_of_settled h]
  dsimp only
  split
  · exact h
  · cases hgen : fw.genEcdsaKey w.state with
    | mk r s =>
      cases r with
      | error e =>
        have hs := fw.genEcdsaKey_error w.state e (by rw [hgen])
        rw [hgen] at hs
        dsimp only at hs ⊢
        split_ifs
        · exact ⟨h.1, honest_refresh _⟩
        · exact ⟨h.1, fun hc => by rw [hs]; exact h.2 hc⟩
      | ok =>
        -- The refreshed status is honest about the new key, and locking keeps the key.
        have href := honest_refresh { w with state := s }
        have hlock :=
          key_lockKey ({ w with state := s } : KeyWorld fw).refreshProvisioningStatus.state
        dsimp only
        split
        next heq =>
          rw [heq] at hlock
          exact ⟨h.1, fun hc => hlock.trans (href hc)⟩
        next heq =>
          rw [heq] at hlock
          exact ⟨h.1, fun hc => hlock.trans (href hc)⟩

theorem settled_fwcryptoStatus (h : w.Settled) : w.fwcryptoStatus.2.Settled := by
  unfold fwcryptoStatus
  rw [construct_of_settled h]
  dsimp only
  split
  · exact h
  · exact h
  · exact h

/-- `GetPrivkey` sends no key: it asks for one only where the slot is blank. -/
theorem getPrivkey_spec (h : w.Settled) :
    (w.getPrivkey decodes).2.Settled ∧ ∀ k, .privateKey k ∉ (w.getPrivkey decodes).1 := by
  unfold getPrivkey
  rw [construct_of_settled h]
  split_ifs
  · exact ⟨h, by simp⟩
  · dsimp only
    split
    · exact ⟨h, by simp⟩
    · exact ⟨h, by simp⟩
    next hcached =>
      have hblank := h.2 hcached
      have hslot := fw.getPrivateKey_slot w.state
      unfold RpiFastbootd.getPrivateKey
      cases hget : fw.getPrivateKey w.state with
      | mk r s =>
        rw [hget] at hslot
        cases r with
        | error e => exact ⟨⟨h.1, fun _ => by rw [hslot]; exact hblank⟩, by simp⟩
        | ok k =>
          have := fw.getPrivateKey_ok w.state k (by rw [hget])
          rw [hblank] at this
          cases this

theorem execute_spec (h : w.Settled) {c : KeyCommand} {replies : List (KeyResponse Key)}
    {w' : KeyWorld fw} (he : w.execute decodes c = some (replies, w')) :
    w'.Settled ∧ ∀ r ∈ replies, ∀ k, .privateKey k ∉ r.message := by
  obtain ⟨hsettled, hnone⟩ := @getPrivkey_spec _ _ _ decodes h
  cases c with
  | init =>
    cases he
    refine ⟨settled_fwcryptoInit h, fun r hr k => ?_⟩
    obtain rfl := List.mem_singleton.1 hr
    simp [Response.toKeyResponse]
  | status =>
    cases he
    refine ⟨settled_fwcryptoStatus h, fun r hr k => ?_⟩
    obtain rfl := List.mem_singleton.1 hr
    simp [Response.toKeyResponse]
  | getvarPrivateKey =>
    cases he
    refine ⟨hsettled, fun r hr k => ?_⟩
    obtain rfl := List.mem_singleton.1 hr
    exact hnone k
  | getvarAll above below =>
    cases he
    refine ⟨hsettled, fun r hr k => ?_⟩
    simp only [List.mem_append, List.mem_map, List.mem_singleton] at hr
    obtain ((⟨s, -, rfl⟩ | rfl) | ⟨s, -, rfl⟩) | rfl := hr
    · simp
    · intro hk
      obtain hk | hk := List.mem_cons.1 hk
      · cases hk
      · exact hnone k hk
    · simp
    · simp

end KeyWorld

/-- In every run from the start-up pass on, with any failures of the firmware, no reply has a
private key in it. -/
theorem no_private_key_sent (fw : Firmware Key) (decodes : Key → Bool) (s : fw.State)
    (commands : List KeyCommand) :
    ∀ e ∈ runs (KeyWorld.execute decodes) (KeyWorld.lockOtpKeyAtStartup { state := s }) commands,
      ∀ r ∈ e.output, ∀ k, .privateKey k ∉ r.message := by
  intro e he
  obtain ⟨earlier, later, hrun⟩ := List.append_of_mem he
  obtain ⟨hsettled, hstep⟩ := @runs_invariant _ _ _ (KeyWorld.execute decodes)
    (fun _ w => w.Settled) (fun _ _ _ _ _ hw hc => (KeyWorld.execute_spec hw hc).1) commands _
    (KeyWorld.settled_lockOtpKeyAtStartup _ rfl) earlier e later hrun
  exact (KeyWorld.execute_spec hsettled hstep).2

end

/-- The start-up pass finds a blank slot and records that; the key that `init` makes is not sent. -/
def provisionedRun : List (Event (KeyWorld sampleFirmware) KeyCommand (List (KeyResponse ℕ))) :=
  runs (KeyWorld.execute fun _ => true)
    (KeyWorld.lockOtpKeyAtStartup { state := (⟨⟨none, false⟩, 0⟩ : SampleState) })
    [.init, .getvarPrivateKey]

theorem no_private_key_sent_provisioned :
    ∃ e r, provisionedRun[1]? = some e ∧ e.output[0]? = some r ∧
      (sampleFirmware.slot e.before.state).key = some 1 ∧ .privateKey 1 ∉ r.message := by
  refine ⟨_, _, rfl, rfl, rfl, ?_⟩
  exact no_private_key_sent sampleFirmware (fun _ => true) ⟨⟨none, false⟩, 0⟩
    [.init, .getvarPrivateKey] _ (List.mem_of_getElem? (i := 1) rfl) _
    (List.mem_of_getElem? (i := 0) rfl) 1

end RpiFastbootd
