import RpiFastbootd.Fastboot.Watch

/-!
# The `oem` commands reply once

One specification for each handler behind `oem`, and for each of the functions they share.
-/

namespace RpiFastbootd

open FastbootDevice

variable {α β : Type}

theorem forall_except {ε : Type} {p : Except ε α → Prop} :
    (∀ x, p x) ↔ (∀ e, p (.error e)) ∧ ∀ a, p (.ok a) :=
  ⟨fun h => ⟨fun e => h _, fun a => h _⟩, fun h x => by cases x with
    | error e => exact h.1 e
    | ok a => exact h.2 a⟩

theorem forall_spawned {p : Spawned → Prop} :
    (∀ x, p x) ↔ (∀ e, p (.failed e)) ∧ p (.exited 0) ∧ ∀ rc, p (.exited (rc + 1)) := by
  refine ⟨fun h => ⟨fun e => h _, h _, fun rc => h _⟩, fun h x => ?_⟩
  cases x with
  | failed e => exact h.1 e
  | exited rc => cases rc with
    | zero => exact h.2.1
    | succ rc => exact h.2.2 rc

/-! ### Partition tables and encrypted volumes -/

theorem handles_oemCmdPartinit (args : List String) : Handles (oemCmdPartinit args) := by
  refine serves_ite.2 ⟨fun _ => handles_writeFail, fun hlen => ?_⟩
  refine serves_bind (asks_arg (by omega)) fun targetDevice => ?_
  refine serves_bind (asks_arg (by omega)) fun diskLabel => ?_
  simp only [serves_ite, handles_writeFail, implies_true, true_and, serves_ask_bind]
  refine fun opened _ => serves_bind (asks_argIf (by omega)) fun labelId => ?_
  simp

theorem handles_oemCmdPartapp (args : List String) : Handles (oemCmdPartapp args) := by
  refine serves_ite.2 ⟨fun _ => handles_writeFail, fun hlen => ?_⟩
  refine serves_bind (asks_arg (by omega)) fun blockDevice => ?_
  refine serves_bind (asks_arg (by omega)) fun code => ?_
  simp only [serves_ite, handles_writeFail, serves_ask_bind, implies_true, true_and]
  refine fun opened _ => serves_bind (asks_argIf (by omega)) fun given => ?_
  cases given.elim (some 0) (parseUint maxUint64) <;> simp

theorem asks_generateLuksKeyFromPartition (blockDevice : String) :
    Asks (generateLuksKeyFromPartition blockDevice) := by
  simp [generateLuksKeyFromPartition]

theorem asks_resolveBlockDevicePath (path : String) : Asks (resolveBlockDevicePath path) := by
  simp [resolveBlockDevicePath, forall_except]

theorem asks_addMapperPartitionMappings (path : String) :
    Asks (addMapperPartitionMappings path) := by
  simp [addMapperPartitionMappings, forall_spawned]

theorem asks_listMapperPartitions (path : String) : Asks (listMapperPartitions path) := by
  simp [listMapperPartitions]

theorem asks_afterCryptOpen (name : String) : Asks (afterCryptOpen name) := by
  simp only [afterCryptOpen, serves_ask_bind, serves_ite, asks_pure, implies_true, true_and]
  intro _ _
  refine serves_bind (asks_addMapperPartitionMappings _) fun error => ?_
  cases error with
  | some error => exact asks_writeInfos _
  | none =>
    exact serves_writeInfo_bind.2
      (serves_bind (asks_listMapperPartitions _) fun _ => asks_writeInfos _)

theorem handles_cryptsetup {argv : List String} {error failed : String} {done : DeviceM Bool}
    (h : Handles done) : Handles (cryptsetup argv error failed done) := by
  simp [cryptsetup, forall_spawned, h]

theorem handles_native {build : Build} {n : DeviceM (Except String Unit)} {done : DeviceM Bool}
    {fallback : String → DeviceM Bool} (hn : Asks n) (hdone : Handles done)
    (hfallback : ∀ error, Handles (fallback error)) : Handles (native build n done fallback) := by
  refine serves_ite.2 ⟨fun _ => serves_bind hn fun result => ?_, fun _ => hfallback _⟩
  cases result with
  | ok _ => exact hdone
  | error error => exact hfallback error

theorem handles_oemCmdCryptinit (build : Build) (args : List String) :
    Handles (oemCmdCryptinit build args) := by
  refine serves_ite.2 ⟨fun _ => handles_writeFail, fun hlen => ?_⟩
  refine serves_bind (asks_arg (by omega)) fun _ => ?_
  refine serves_ite.2 ⟨fun _ => handles_writeFail, fun _ => ?_⟩
  refine serves_bind (asks_arg (by omega)) fun _ => ?_
  refine serves_ite.2 ⟨fun _ => handles_writeFail, fun _ => ?_⟩
  refine serves_bind (asks_arg (by omega)) fun blockDevice => ?_
  refine serves_bind (asks_arg (by omega)) fun label => ?_
  refine serves_bind (asks_generateLuksKeyFromPartition _) fun key => ?_
  simp only [serves_ite, handles_writeFail, implies_true, true_and, serves_ask_bind]
  refine fun _ nodes _ => serves_bind (asks_argIf (by omega)) fun cipher => ?_
  refine handles_native (asks_ask rfl) handles_writeOkay fun error => ?_
  simp [handles_cryptsetup]

theorem handles_oemCmdCryptopen (build : Build) (args : List String) :
    Handles (oemCmdCryptopen build args) := by
  refine serves_ite.2 ⟨fun _ => handles_writeFail, fun hlen => ?_⟩
  refine serves_bind (asks_arg (by omega)) fun device => ?_
  refine serves_bind (asks_resolveBlockDevicePath _) fun path => ?_
  refine serves_bind (asks_arg (by omega)) fun mappedName => ?_
  refine serves_bind (asks_generateLuksKeyFromPartition _) fun key => ?_
  simp only [serves_ite, handles_writeFail, implies_true, true_and, serves_ask_bind]
  intro _ nodes _ _
  have opened {message : String} : Handles (do afterCryptOpen mappedName; writeOkay message) :=
    serves_bind (asks_afterCryptOpen _) fun _ => handles_writeOkay
  refine handles_native (asks_ask rfl) opened fun error => ?_
  simp [handles_cryptsetup opened]

theorem handles_oemCmdCryptsetpassword (build : Build) (args : List String) :
    Handles (oemCmdCryptsetpassword build args) := by
  refine serves_ite.2 ⟨fun _ => handles_writeFail, fun hlen => ?_⟩
  refine serves_bind (asks_arg (by omega)) fun device => ?_
  refine serves_bind (asks_arg (by omega)) fun passphrase => ?_
  refine serves_bind (asks_generateLuksKeyFromPartition _) fun key => ?_
  simp only [serves_ite, handles_writeFail, implies_true, true_and]
  intro _
  refine handles_native (asks_ask rfl) handles_writeOkay fun error => ?_
  simp [forall_spawned]

/-! ### Mounts, files and lines -/

theorem asks_mountTypes (path mountpoint : String) (types : List String) (error : Bool × String) :
    Asks (mountTypes path mountpoint types error) := by
  induction types generalizing error with
  | nil => exact asks_pure
  | cons fstype rest ih => simp [mountTypes, Option.forall, ih]

theorem asks_enhanceMountError (path mountpoint fstype error : String) (einval : Bool) :
    Asks (enhanceMountError path mountpoint fstype einval error) := by
  simp only [enhanceMountError, serves_ite, serves_ask_bind, asks_pure, implies_true, true_and]
  intro _ _ _
  refine serves_bind (asks_addMapperPartitionMappings _) fun _ => ?_
  exact serves_bind (asks_listMapperPartitions _) fun _ => asks_pure

theorem asks_mountAny (path mountpoint : String) (fstype : Option String) :
    Asks (mountAny path mountpoint fstype) := by
  simp [mountAny, Option.forall, asks_mountTypes]

theorem handles_oemCmdMount (args : List String) : Handles (oemCmdMount args) := by
  refine serves_ite.2 ⟨fun _ => handles_writeFail, fun hlen => ?_⟩
  refine serves_bind (asks_arg (by omega)) fun device => ?_
  refine serves_bind (asks_resolveBlockDevicePath _) fun path => ?_
  refine serves_bind (asks_arg (by omega)) fun mountpoint => ?_
  refine (serves_ask_bind rfl).2 fun status => ?_
  match status with
  | .error error => exact handles_writeFail
  | .ok (false, _) => exact handles_writeFail
  | .ok (true, _) =>
    refine (serves_ask_bind rfl).2 fun made => serves_ite.2 ⟨fun _ => handles_writeFail, fun _ => ?_⟩
    refine serves_bind (asks_argIf (by omega)) fun fstype => ?_
    refine serves_bind (asks_mountAny _ _ _) fun failed => ?_
    cases failed with
    | none => exact handles_writeOkay
    | some error =>
      exact serves_bind (asks_enhanceMountError _ _ _ _ _) fun _ => handles_writeFail

theorem handles_oemCmdUmount (args : List String) : Handles (oemCmdUmount args) := by
  refine serves_ite.2 ⟨fun _ => handles_writeFail, fun hlen => ?_⟩
  refine serves_bind (asks_arg (by omega)) fun mountpoint => ?_
  simp [Option.forall]

theorem asks_setGpioLinesNative (args : List String) : Asks (setGpioLinesNative args) := by
  refine serves_ite.2 ⟨fun _ => asks_pure, fun hlen => ?_⟩
  exact serves_bind (asks_arg (by omega)) fun _ => asks_ask rfl

theorem handles_oemCmdGpioset (build : Build) (args : List String) :
    Handles (oemCmdGpioset build args) := by
  simp only [oemCmdGpioset, serves_ite, handles_writeFail, implies_true, true_and]
  refine fun _ => ⟨fun _ => serves_bind (asks_setGpioLinesNative _) fun set => ?_, fun _ => ?_⟩
  · simp [forall_spawned]
  · simp [forall_spawned]

theorem handles_oemCmdLed (args : List String) : Handles (oemCmdLed args) := by
  refine serves_ite.2 ⟨fun _ => handles_writeFail, fun hlen => ?_⟩
  refine serves_bind (asks_arg (by omega)) fun led => ?_
  refine serves_bind (asks_arg (by omega)) fun value => ?_
  simp only [serves_ite, serves_writeInfo_bind, handles_writeOkay, implies_true, true_and,
    serves_ask_bind, forall_except]
  intro _ _
  refine serves_ask_bind_endless (fun _ => rfl) (fun results h => ?_) fun results h => .inl ?_
  · obtain ⟨count, hcount⟩ :=
      Option.isSome_iff_exists.1 (Option.isNone_eq_false_iff.1 h)
    simp [hcount]
  · simp [Option.isNone_iff_eq_none.1 h]

theorem handles_oemCmdDownloadFile (args : List String) : Handles (oemCmdDownloadFile args) := by
  refine serves_ite.2 ⟨fun _ => handles_writeFail, fun hlen => ?_⟩
  refine serves_bind (asks_argIf (by omega)) fun mode => ?_
  refine serves_ite.2 ⟨fun _ => handles_writeFail, fun _ => serves_state_bind fun d => ?_⟩
  refine serves_bind (asks_arg (by omega)) fun path => ?_
  simp only [serves_ask_bind, forall_except, handles_writeFail, implies_true, true_and]
  intro _ s g h
  refine meets_bind.2 (meets_update.2 (handles_writeOkay _ _ ?_))
  exact { h with buffer := .inl rfl }

theorem length_freadLoop {size : ℕ} {read bytes : List Byte} {chunks : List (List Byte)}
    (hle : read.length ≤ size) (h : freadLoop size read chunks = some bytes) :
    bytes.length = size := by
  induction chunks generalizing read with
  | nil =>
    rw [freadLoop] at h
    split_ifs at h with hfull
    cases h
    exact le_antisymm hle hfull
  | cons chunk rest ih =>
    rw [freadLoop] at h
    split_ifs at h with hfull
    · cases h
      exact le_antisymm hle hfull
    · exact ih (by simp; omega) h

theorem handles_oemCmdUploadFile (args : List String) : Handles (oemCmdUploadFile args) := by
  refine serves_ite.2 ⟨fun _ => handles_writeFail, fun hlen => ?_⟩
  refine serves_bind (asks_arg (by omega)) fun path => ?_
  simp only [serves_ite, handles_writeFail, implies_true, true_and, serves_ask_bind, forall_except,
    serves_threw]
  intro _ position _ _ _ s g h
  refine meets_bind.2 (meets_update.2 (meets_bind.2 (meets_askQuery.2
    ⟨fun chunks => ?_, fun _ _ _ => h.terminals⟩)))
  simp only [Watch.learn, Query.stages, Query.endless]
  cases hread : freadLoop ((position : ℤ).bmod (2 ^ 32)).toNat [] chunks with
  | none => exact Bool.or_true _
  | some bytes =>
    refine meets_bind.2 (meets_update.2 (Buffered.meets_writeOkay ?_))
    exact ⟨h.sync, h.lost.trans, h.replied, h.terminals, rfl⟩

/-! ### dm-verity -/

theorem asks_slotMismatch (dataDevice slot : String) : Asks (slotMismatch dataDevice slot) := by
  simp [slotMismatch, Option.forall]

theorem handles_emitSuccess (slot : String) (rootHash : List Byte) :
    Handles (emitSuccess slot rootHash) := by
  simp [emitSuccess, forall_except]

theorem handles_veritySign (slot dataDevice hashDevice : String) (dataSize : ℕ) :
    Handles (veritySign slot dataDevice hashDevice dataSize) := by
  refine (serves_ask_bind rfl).2 fun outcome => ?_
  cases outcome with
  | signed rootHash => exact handles_emitSuccess slot rootHash
  | failed kind rc error => exact handles_writeFail

/-- The preamble has replied where it gives `false`. -/
theorem handles_verityCommonPreamble_bind (dataDevice slot : String) {m : DeviceM Bool}
    (h : Handles m) : Handles (verityCommonPreamble dataDevice slot >>= fun held =>
      if held = false then pure false else m) := by
  simp only [verityCommonPreamble, Prog.ite_bind, bind_assoc, pure_bind, if_true, serves_ite,
    handles_writeFail_false,
    implies_true, true_and, serves_ask_bind]
  refine fun _ _ _ => serves_bind (asks_slotMismatch _ _) fun other => ?_
  cases other with
  | some other =>
    simp only [bind_assoc, pure_bind, if_true, handles_writeFail_false]
  | none =>
    simp only [bind_assoc, serves_ask_bind, Option.forall, pure_bind, if_true, h,
      Bool.true_eq_false, if_false,
      handles_writeFail_false, implies_true, and_self]

theorem handles_oemCmdVeritysetup (build : Build) (args : List String) :
    Handles (oemCmdVeritysetup build args) := by
  refine serves_ite.2 ⟨fun _ => handles_writeFail, fun _ => ?_⟩
  refine serves_ite.2 ⟨fun _ => handles_writeFail, fun hlen => ?_⟩
  refine serves_bind (asks_arg (by omega)) fun deviceName => ?_
  refine serves_bind (asks_arg (by omega)) fun slot => ?_
  simp only [serves_ite, handles_writeFail, implies_true, true_and, serves_ask_bind]
  refine fun _ _ => handles_verityCommonPreamble_bind _ _ ?_
  simp [handles_veritySign]

theorem handles_oemCmdVerityappend (build : Build) (args : List String) :
    Handles (oemCmdVerityappend build args) := by
  refine serves_ite.2 ⟨fun _ => handles_writeFail, fun _ => ?_⟩
  refine serves_ite.2 ⟨fun _ => handles_writeFail, fun hlen => ?_⟩
  refine serves_bind (asks_arg (by omega)) fun deviceName => ?_
  refine serves_bind (asks_arg (by omega)) fun size => ?_
  cases parseUint maxUint64 size with
  | none => exact handles_writeFail
  | some dataSize =>
    refine serves_bind (asks_arg (by omega)) fun slot => ?_
    simp only [serves_ite, handles_writeFail, implies_true, true_and, serves_ask_bind]
    refine fun _ _ _ _ _ => handles_verityCommonPreamble_bind _ _ ?_
    simp [handles_veritySign]

/-! ### Keys, the boot EEPROM and the OTP memory -/

theorem handles_oemCmdFwcrypto (args : List String) : Handles (oemCmdFwcrypto args) := by
  refine serves_ite.2 ⟨fun _ => handles_writeFail, fun hlen => ?_⟩
  refine serves_bind (asks_arg (by omega)) fun subcommand => ?_
  simp only [serves_ite, handles_writeFail, implies_true, true_and, serves_ask_bind, Option.forall,
    Bool.forall_bool, handles_writeOkay, forall_except, Prod.forall, and_true]
  refine fun _ _ _ hdigest => serves_bind (asks_arg (by omega)) fun hexDigest => ?_
  refine serves_ite.2 ⟨fun _ => handles_writeFail, fun _ => ?_⟩
  cases decodeDigest hexDigest.toList with
  | none => exact handles_writeFail
  | some hash => simp [forall_except]

theorem asks_eepromResolveSpidev (args : List String) : Asks (eepromResolveSpidev args) := by
  refine serves_bind (asks_argIf (by omega)) fun given => ?_
  exact serves_ite.2 ⟨fun _ => asks_pure, fun _ => asks_ask rfl⟩

theorem handles_oemCmdEepromUpdate (args : List String) : Handles (oemCmdEepromUpdate args) := by
  refine serves_bind (asks_eepromResolveSpidev _) fun spidev => serves_state_bind fun d => ?_
  simp [forall_except]

theorem handles_oemCmdEepromVerify (args : List String) : Handles (oemCmdEepromVerify args) := by
  refine serves_bind (asks_eepromResolveSpidev _) fun spidev => serves_state_bind fun d => ?_
  simp [forall_except]

theorem handles_oemCmdEepromRead (args : List String) : Handles (oemCmdEepromRead args) := by
  refine serves_bind (asks_eepromResolveSpidev _) fun spidev => ?_
  simp only [serves_ite, handles_writeFail, implies_true, true_and, serves_ask_bind]
  intro _ sha256 s g h
  refine meets_bind.2 (meets_askQuery.2 ⟨fun image => ?_, fun _ _ _ => h.terminals⟩)
  cases image with
  | error error =>
    exact handles_writeFail s _ (by simpa [Watch.learn, Query.endless, Query.stages] using h)
  | ok image =>
    refine meets_bind.2 (meets_update.2
      (Buffered.meets_writeInfo_bind ?_ fun _ _ _ h => h.meets_writeOkay))
    exact ⟨h.sync, h.lost.trans, h.replied, h.terminals, rfl⟩

theorem handles_oemCmdMac (args : List String) : Handles (oemCmdMac args) := by
  refine serves_ite.2 ⟨fun _ => handles_writeFail, fun hlen => ?_⟩
  refine serves_bind (asks_arg (by omega)) fun subcommand => ?_
  simp only [serves_ite, handles_writeFail, implies_true, true_and, and_true]
  refine ⟨fun _ => ?_, fun _ => ⟨fun _ => ?_, fun _ _ hset => ?_⟩⟩
  · refine serves_bind (asks_arg (by omega)) fun name => ?_
    cases parseMacInterface name with
    | none => exact handles_writeFail
    | some iface =>
      refine (serves_ask_bind rfl).2 fun answer => ?_
      obtain ⟨env, st⟩ := answer
      dsimp only
      split <;> simp
  · refine serves_bind (asks_arg (by omega)) fun address => ?_
    split
    · exact handles_writeFail
    · split <;> simp
  · refine serves_bind (asks_arg (by omega)) fun name => ?_
    cases parseMacInterface name with
    | none => exact handles_writeFail
    | some iface =>
      refine serves_bind (asks_arg (by omega)) fun address => ?_
      cases parseMac address with
      | error error => exact handles_writeFail
      | ok mac =>
        refine (serves_ask_bind rfl).2 fun answer => ?_
        obtain ⟨env, st⟩ := answer
        dsimp only
        split <;> simp

theorem handles_oemCmdOtp (args : List String) : Handles (oemCmdOtp args) := by
  refine serves_ite.2 ⟨fun _ => handles_writeFail, fun hlen => ?_⟩
  refine serves_bind (asks_arg (by omega)) fun subcommand => ?_
  refine serves_ite.2 ⟨fun _ => handles_writeFail, fun _ => ?_⟩
  refine serves_bind (asks_arg (by omega)) fun row => ?_
  cases parseUint maxUint32 row with
  | none => exact handles_writeFail
  | some start =>
    simp only [serves_ite, handles_writeFail, implies_true, true_and]
    refine ⟨fun _ => serves_bind (asks_argIf (by omega)) fun given => ?_, fun _ _ => ?_⟩
    · split
      · exact handles_writeFail
      · refine (serves_ask_bind rfl).2 fun answer => ?_
        obtain ⟨env, st⟩ := answer
        dsimp only
        split <;> simp
    · cases otpWords (args.drop 4) with
      | error word => exact handles_writeFail
      | ok values =>
        refine (serves_ask_bind rfl).2 fun answer => ?_
        obtain ⟨env, st⟩ := answer
        dsimp only
        split <;> simp

/-! ### Components with a model of their own -/

theorem terminal_oemCmdIdpInit {s s' : IdpSession} {data : String}
    {reader : String → Except String Json.Doc} {m : Machine} {fresh : IDPdevice} {r : Response}
    (h : s.oemCmdIdpInit data reader m fresh = some (r, s')) : r.terminal = true := by
  rw [IdpSession.oemCmdIdpInit] at h
  split_ifs at h
  · cases h; rfl
  · cases h; rfl
  · split at h
    · cases h; rfl
    · cases h; rfl
    · cases h
    · obtain ⟨⟨result, d⟩, -, h⟩ := Option.bind_eq_some_iff.1 h
      cases result <;> cases h <;> rfl

theorem terminal_oemCmdIdpWrite {s s' : IdpSession} {env : Step → Bool} {r : Response}
    (h : s.oemCmdIdpWrite env = some (r, s')) : r.terminal = true := by
  rw [IdpSession.oemCmdIdpWrite] at h
  split at h
  · cases h; rfl
  · obtain ⟨p, -, h⟩ := Option.bind_eq_some_iff.1 h
    dsimp only at h
    split_ifs at h <;> cases h <;> rfl

theorem handles_replyOrDie {reply : Option (Response × IdpSession)}
    (h : ∀ r s, reply = some (r, s) → r.terminal = true) (hs : reply.isNone = false) :
    Handles (replyOrDie reply) := by
  cases reply with
  | none => cases hs
  | some reply => exact handles_writeStatus (h reply.1 reply.2 rfl)

theorem handles_oemCmdIdpInit : Handles oemCmdIdpInit := by
  refine serves_state_bind fun d => ?_
  refine serves_ask_bind_endless (fun _ => rfl) (fun a h => ?_) fun a h => .inr ?_
  · exact handles_replyOrDie (fun _ _ => terminal_oemCmdIdpInit) h
  · show replyOrDie _ = _
    rw [Option.isNone_iff_eq_none.1 h]
    rfl

theorem handles_oemCmdIdpWrite : Handles oemCmdIdpWrite := by
  refine serves_ask_bind_endless (fun _ => rfl) (fun a h => ?_) fun a h => .inr ?_
  · exact handles_replyOrDie (fun _ _ => terminal_oemCmdIdpWrite) h
  · show replyOrDie _ = _
    rw [Option.isNone_iff_eq_none.1 h]
    rfl

theorem oneReply_oemCmdIdpGetblk (s : IdpSession) : OneReply s.oemCmdIdpGetblk.1 := by
  rw [IdpSession.oemCmdIdpGetblk]
  split
  · exact oneReply_singleton rfl
  · split_ifs
    · exact oneReply_singleton rfl
    · exact ⟨_, _, rfl, by simp, rfl⟩

theorem terminal_oemCmdIdpDone (s : IdpSession) : s.oemCmdIdpDone.1.terminal = true := by
  rw [IdpSession.oemCmdIdpDone]
  split
  · rfl
  · dsimp only
    split_ifs <;> rfl

theorem terminal_oemCmdBmapLoad (s : BmapState) (args : List String) (buf : List Byte) :
    (RpiFastbootd.oemCmdBmapLoad s args buf).1.terminal = true := by
  rw [RpiFastbootd.oemCmdBmapLoad]
  dsimp only
  split_ifs <;> try rfl
  split <;> rfl

theorem oneReply_verifyRanges (sha256 : List Byte → List Byte) (io : BmapIO) (s : BmapState)
    (ranges : List BmapRange) (i k : ℕ) : OneReply (verifyRanges sha256 io s ranges i k) := by
  induction ranges generalizing i k with
  | nil => exact oneReply_singleton rfl
  | cons r rest ih =>
    rw [verifyRanges]
    refine OneReply.info ?_ rfl
    split
    · exact oneReply_singleton rfl
    · split_ifs
      · exact oneReply_singleton rfl
      · split
        · exact oneReply_singleton rfl
        · exact oneReply_singleton rfl
        · split_ifs
          · exact oneReply_singleton rfl
          · exact ih _ _

theorem oneReply_oemCmdBmapVerify (sha256 : List Byte → List Byte) (io : BmapIO) (s : BmapState)
    (args : List String) : OneReply (RpiFastbootd.oemCmdBmapVerify sha256 io s args) := by
  rw [RpiFastbootd.oemCmdBmapVerify]
  dsimp only
  split
  · exact oneReply_singleton rfl
  split
  · exact oneReply_singleton rfl
  split
  · exact oneReply_singleton rfl
  split
  · exact oneReply_singleton rfl
  split
  · exact oneReply_singleton rfl
  split
  · exact oneReply_singleton rfl
  split
  · exact oneReply_singleton rfl
  · exact oneReply_verifyRanges _ _ _ _ _ _

theorem terminal_eraseHandler (w : BlockWorld) (args : List String) :
    (RpiFastbootd.eraseHandler w args).1.terminal = true := by
  unfold RpiFastbootd.eraseHandler
  split
  · dsimp only
    split
    · rfl
    split
    · rfl
    split
    · rfl
    split <;> rfl
  · rfl

theorem handles_oemCmdIdpGetblk : Handles oemCmdIdpGetblk :=
  (serves_ask_bind rfl).2 fun s => handles_writeReplies (oneReply_oemCmdIdpGetblk s)

theorem handles_oemCmdIdpDone : Handles oemCmdIdpDone :=
  (serves_ask_bind rfl).2 fun s =>
    handles_writeReplies (oneReply_singleton (terminal_oemCmdIdpDone s))

theorem handles_oemCmdBmapLoad (args : List String) :
    Handles (FastbootDevice.oemCmdBmapLoad args) :=
  serves_bind (asks_argIf (by omega)) fun _ => (serves_ask_bind rfl).2 fun s =>
    serves_state_bind fun d =>
      handles_writeReplies (oneReply_singleton (terminal_oemCmdBmapLoad s args d.downloadData))

theorem handles_oemCmdBmapVerify (args : List String) :
    Handles (FastbootDevice.oemCmdBmapVerify args) :=
  serves_bind (asks_argIf (by omega)) fun _ => (serves_ask_bind rfl).2 fun a =>
    (serves_ask_bind rfl).2 fun sha256 => handles_writeReplies (oneReply_oemCmdBmapVerify sha256 a.2 a.1 args)

theorem handles_eraseHandler (args : List String) :
    Handles (FastbootDevice.eraseHandler args) :=
  serves_bind (asks_argIf (by omega)) fun _ => (serves_ask_bind rfl).2 fun w =>
    handles_writeReplies (oneReply_singleton (terminal_eraseHandler w args))

/-- An `oem` command line has a name unless it has no space. -/
theorem handles_oemCmdHandler (build : Build) {args : List String}
    (h : CommandHandler.oem.troublesome args = false) : Handles (oemCmdHandler build args) := by
  have hname : 2 ≤ (split ' ' (field args 0)).length := not_lt.1 (of_decide_eq_false h)
  have hargs : 0 < args.length := by
    refine List.length_pos_iff.2 fun hnil => ?_
    rw [hnil] at hname
    exact absurd hname (by decide)
  rw [oemCmdHandler, arg_of_lt hargs, pure_bind]
  refine serves_bind (asks_arg (by omega)) fun name => ?_
  split
  · exact handles_oemCmdLed _
  · exact handles_oemCmdCryptinit _ _
  · exact handles_oemCmdCryptopen _ _
  · exact handles_oemCmdCryptsetpassword _ _
  · exact handles_oemCmdPartinit _
  · exact handles_oemCmdPartapp _
  · exact handles_oemCmdMount _
  · exact handles_oemCmdUmount _
  · exact handles_oemCmdDownloadFile _
  · exact handles_oemCmdUploadFile _
  · exact handles_oemCmdGpioset _ _
  · exact handles_oemCmdVeritysetup _ _
  · exact handles_oemCmdVerityappend _ _
  · exact handles_oemCmdIdpInit
  · exact handles_oemCmdIdpWrite
  · exact handles_oemCmdIdpGetblk
  · exact handles_oemCmdIdpDone
  · exact handles_oemCmdFwcrypto _
  · exact handles_oemCmdBmapLoad _
  · exact handles_oemCmdBmapVerify _
  · exact handles_oemCmdEepromUpdate _
  · exact handles_oemCmdEepromVerify _
  · exact handles_oemCmdEepromRead _
  · exact handles_oemCmdMac _
  · exact handles_oemCmdOtp _
  · exact handles_writeFail

end RpiFastbootd
