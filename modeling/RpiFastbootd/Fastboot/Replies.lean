import RpiFastbootd.Fastboot.OemReplies

/-!
# Every handler replies once

One specification for each handler of the command maps.  `getvar:mmc-extcsd` is the exception: it is
answered twice, and keeps everything else.
-/

namespace RpiFastbootd

open FastbootDevice

variable {α β : Type}

/-! ### Variables -/

theorem asks_getVariable (name : String) (args : List String) : Asks (getVariable name args) :=
  serves_bind (asks_argIf fun h => List.length_pos_iff.2 h.1) fun _ => asks_ask rfl

theorem asks_writeVariable (name : String) (args : List String) : Asks (writeVariable name args) :=
  serves_bind (asks_getVariable _ _) fun _ => asks_writeInfos _

theorem asks_writeVariables (name : String) (all : List (List String)) :
    Asks (writeVariables name all) := by
  induction all with
  | nil => exact asks_pure
  | cons args rest ih => exact serves_bind (asks_writeVariable _ _) fun _ => ih

theorem asks_getAllVars (name : String) (hasArgs : Bool) : Asks (getAllVars name hasArgs) :=
  serves_ite.2 ⟨fun _ => (serves_ask_bind rfl).2 fun _ => asks_writeVariables _ _,
    fun _ => asks_writeVariable _ _⟩

theorem asks_getVarAll (table : List (String × Bool)) : Asks (getVarAll table) := by
  induction table with
  | nil => exact asks_pure
  | cons v rest ih => exact serves_bind (asks_getAllVars _ _) fun _ => ih

theorem asks_readKernelLogNative : Asks readKernelLogNative := by
  refine (serves_ask_bind rfl).2 fun lines => ?_
  cases lines with
  | none => exact asks_pure
  | some lines => exact asks_writeLines lines

/-- `getvar:dmesg` has replied where `GetDmesg` gives `false`, unless a line was lost. -/
theorem handles_getDmesg_bind {f : Bool → DeviceM Bool} (hfalse : f false = pure false)
    (htrue : Handles (f true)) : Handles (getDmesg >>= f) := by
  have hb : ∀ b, Handles (f b) := by
    intro b
    cases b with
    | false => rw [hfalse]; exact handles_pure_false
    | true => exact htrue
  have hfail {message : String} : Handles (writeFail message >>= fun _ => pure false >>= f) := by
    rw [pure_bind, hfalse]
    exact handles_writeFail_false
  rw [getDmesg, bind_assoc]
  refine serves_bind asks_readKernelLogNative fun read => ?_
  rw [Prog.ite_bind]
  refine serves_ite.2 ⟨fun _ => htrue, fun _ => ?_⟩
  simp only [bind_assoc, serves_ask_bind, forall_spawned]
  refine ⟨fun _ => ?_, fun lines => ?_, fun _ => ?_⟩
  · exact hfail
  · cases lines with
    | some lines => exact serves_bind (asks_writeLines lines) hb
    | none =>
      show Handles ((writeFail _ >>= fun _ => pure false) >>= f)
      rw [bind_assoc]
      exact hfail
  · exact hfail

theorem handles_getVarHandler {args : List String}
    (h : CommandHandler.getVar.troublesome args = false) : Handles (getVarHandler args) := by
  have hmmc : ¬ (2 ≤ args.length ∧ field args 1 = "mmc-extcsd") := of_decide_eq_false h
  refine serves_ite.2 ⟨fun _ => handles_writeFail, fun hlen => ?_⟩
  rw [arg_of_lt (not_lt.1 hlen), pure_bind]
  have hreply : ∀ b : Bool, Handles (if b = false then pure false else writeOkay "") := by
    intro b
    exact serves_ite.2 ⟨fun _ => handles_pure_false, fun _ => handles_writeOkay⟩
  match hspecial : specialVar (field args 1) with
  | some get =>
    unfold specialVar at hspecial
    split at hspecial
    · cases hspecial
      exact serves_bind (asks_getVarAll _) hreply
    · cases hspecial
      exact handles_getDmesg_bind rfl handles_writeOkay
    · exact absurd ⟨by omega, by assumption⟩ hmmc
    · cases hspecial
  | none =>
    dsimp only
    refine serves_ite.2 ⟨fun _ => handles_writeFail, fun _ => ?_⟩
    refine serves_bind (asks_getVariable _ _) fun value => ?_
    split
    · exact handles_writeFail
    · exact handles_writeOkay

theorem handles_getVarHandlerDataPlane (args : List String) :
    Handles (getVarHandlerDataPlane args) := by
  refine serves_ite.2 ⟨fun _ => handles_writeFail, fun hlen => ?_⟩
  refine serves_bind (asks_arg (by omega)) fun name => ?_
  simp [Prod.forall]

/-! ### Data phases -/

theorem fill_eq {bytes buffer : List Byte} (h : bytes.length = buffer.length) :
    fill bytes buffer = bytes := by
  rw [fill, h, List.drop_length, List.append_nil, ← h, List.take_length]

/-- The data of a download: the payload is received whole, or the transfer is lost. -/
theorem meets_handleDataRead {s : FastbootDevice} {g : Watch}
    {Q : Except Stop Bool → FastbootDevice → Watch → Prop}
    (hgot : ∀ bytes, Q (.ok true) { s with downloadData := bytes }
      { g with pending := some bytes, staged := none })
    (hlost : ∀ bytes, Q (.ok false) { s with downloadData := bytes, transportFailed := true }
      { g with lost := true }) : Meets watcher handleDataRead s g Q := by
  refine meets_bind.2 (meets_state.2 (meets_bind.2 ⟨trivial, fun received => ?_⟩))
  refine meets_bind.2 (meets_update.2 ?_)
  cases received with
  | failed bytes => exact meets_bind.2 (meets_update.2 (hlost _))
  | got bytes =>
    dsimp only
    by_cases hlen : bytes.length = s.downloadData.length
    · have hnext : watcher.next g (.readData s.downloadData.length) (.got bytes) =
          { g with pending := some bytes, staged := none } := if_pos hlen
      rw [hnext, if_pos hlen, Received.bytes, fill_eq hlen]
      exact hgot bytes
    · have hnext : watcher.next g (.readData s.downloadData.length) (.got bytes) =
          { g with lost := true } := if_neg hlen
      rw [hnext, if_neg hlen]
      exact meets_bind.2 (meets_update.2 (hlost _))

theorem handles_downloadHandler (args : List String) : Handles (downloadHandler args) := by
  refine serves_ite.2 ⟨fun _ => handles_writeFail, fun hlen => ?_⟩
  refine serves_ite.2 ⟨fun _ => handles_writeFail, fun _ => ?_⟩
  refine serves_bind (asks_arg (by omega)) fun digits => ?_
  refine serves_ite.2 ⟨fun _ => handles_writeFail, fun _ => ?_⟩
  cases parseUint kMaxDownloadSizeDefault ("0x" ++ digits) with
  | none => exact handles_writeFail
  | some size =>
    simp only [serves_ite, handles_writeFail, implies_true, true_and, serves_ask_bind]
    intro _ _ s g h
    refine meets_bind.2 (meets_update.2 (meets_bind.2 (meets_writeStatus.2 ⟨?_, ?_⟩)))
    · refine meets_bind.2 (meets_handleDataRead (fun bytes => ?_) fun bytes => ?_)
      · refine Buffered.meets_writeOkay ?_
        exact ⟨h.sync, h.lost.trans, by simp [h.replied], h.terminals, rfl⟩
      · refine meets_writeStatus.2 ⟨?_, replied_of_writeLost rfl rfl rfl⟩
        exact ⟨rfl, fun _ => rfl, fun h => absurd h (by simp), fun h => absurd h (by simp),
          fun _ _ => .inl ⟨by simp [h.terminals], by simp⟩⟩
    · exact replied_of_writeLost rfl rfl rfl

theorem meets_handleDataWrite {s : FastbootDevice} {g : Watch} {bytes : List Byte}
    {Q : Except Stop Bool → FastbootDevice → Watch → Prop} (hdata : g.inData = true)
    (hsent : Q (.ok true) s g) (hlost : Q (.ok false) { s with transportFailed := true } g.lose) :
    Meets watcher (handleDataWrite bytes) s g Q := by
  refine meets_bind.2 ⟨hdata, fun written => ?_⟩
  cases written with
  | true => exact hsent
  | false => exact hlost

theorem handles_uploadHandler : Handles uploadHandler := by
  intro s g h
  refine meets_bind.2 (meets_state.2 ?_)
  dsimp only
  split
  · exact handles_writeFail s g h
  · refine meets_bind.2 (meets_writeStatus.2 ⟨?_, replied_of_writeLost rfl rfl rfl⟩)
    refine meets_bind.2 (meets_handleDataWrite rfl ?_ ?_)
    · refine meets_bind.2 (meets_update.2
        (meets_writeStatus.2 ⟨?_, replied_of_writeLost rfl rfl rfl⟩))
      exact ⟨h.sync, h.lost.trans, fun _ => .inl rfl, fun _ => .inl rfl,
        fun _ _ => .inl ⟨by simp [h.terminals], by simp⟩⟩
    · refine meets_writeStatus.2 ⟨replied_of_writeLost rfl rfl rfl, replied_of_writeLost rfl rfl rfl⟩

/-- What holds between the chunks of a fetch. -/
structure Fetching (s : FastbootDevice) (g : Watch) : Prop where
  sync : s.transportFailed = g.lost
  lost : g.lost = g.writeLost
  buffer : s.downloadData = [] ∨ g.staged = some s.downloadData
  phase : g.inData = true
  replied : s.replied = false
  terminals : g.terminals = 0
  pending : g.pending = none

theorem Fetching.replied_false {s : FastbootDevice} {g : Watch} (h : Fetching s g) :
    Replied false s g :=
  ⟨h.sync, h.lost.trans, fun _ => h.buffer, fun _ => .inr ⟨rfl, h.replied⟩,
    fun hw _ => .inr ⟨rfl, h.terminals, h.replied, h.lost.trans hw⟩⟩

/-- A fetch that cannot read on returns without a reply. -/
theorem meets_fetchChunks {s : FastbootDevice} {g : Watch} (h : Fetching s g) (path : String)
    (offset remaining : ℕ) : Meets watcher (fetchChunks path offset remaining) s g fun r s' g' =>
      match r with
      | .ok true => Fetching s' g'
      | .ok false => Replied false s' g'
      | .error e => Stopped e g' := by
  induction remaining using Nat.strong_induction_on generalizing s g offset with
  | _ remaining ih =>
    rw [fetchChunks]
    split_ifs with hzero
    · exact h
    · refine meets_bind.2 (meets_askQuery.2 ⟨fun bytes => ?_, fun _ _ _ => h.terminals⟩)
      rw [learn_of_plain rfl]
      cases bytes with
      | none => exact h.replied_false
      | some bytes =>
        refine meets_bind.2 (meets_handleDataWrite h.phase ?_ (replied_of_writeLost rfl rfl rfl))
        exact ih _ (by omega) h _

theorem handles_fetchHandler (build : Build) (args : List String) :
    Handles (fetchHandler build args) := by
  simp only [fetchHandler, serves_ite, handles_writeFail, implies_true, true_and]
  refine fun _ _ hlen => serves_bind (asks_arg (by omega)) fun name => ?_
  simp only [serves_ite, handles_writeFail, implies_true, true_and, serves_ask_bind]
  intro _ nodes
  cases openPartition nodes name with
  | none => exact handles_writeFail
  | some handle =>
    simp only [serves_ask_bind, serves_ite, handles_writeOkay, implies_true, true_and]
    refine fun w _ => serves_bind (asks_argIf (by omega)) fun offset => ?_
    split
    · exact handles_writeFail
    simp only [serves_ite, handles_writeFail, implies_true, true_and]
    refine fun _ _ => serves_bind (asks_argIf (by omega)) fun size => ?_
    split
    · exact handles_writeFail
    simp only [serves_ite, handles_writeFail, handles_writeOkay, implies_true, true_and,
      serves_ask_bind]
    intro _ _ _ sought
    cases sought with
    | some error => exact handles_writeFail
    | none =>
      intro s g h
      refine meets_bind.2 (meets_writeStatus.2 ⟨?_, replied_of_writeLost rfl rfl rfl⟩)
      have hfetching : Fetching { s with
          replied := s.replied || decide (FastbootResult.data = .okay ∨ FastbootResult.data = .fail) }
          (g.wrote .data) :=
        ⟨h.sync, h.lost, h.buffer, rfl, by simp [h.replied], h.terminals, h.pending⟩
      refine meets_bind.2 ((meets_fetchChunks hfetching _ _ _).mono fun r s' g' hr => ?_)
      cases r with
      | error e => exact hr
      | ok sent =>
        cases sent with
        | false => exact hr
        | true =>
          refine meets_writeStatus.2 ⟨?_, replied_of_writeLost rfl rfl rfl⟩
          exact ⟨hr.sync, hr.lost.trans, fun _ => by simpa [hr.pending] using hr.buffer,
            fun _ => .inl rfl, fun _ _ => .inl ⟨by simp [hr.terminals], by simp⟩⟩

/-! ### Flash, and the end of a session -/

/-- A flash writes the staged payload, or nothing. -/
theorem asks_flash (name : String) : Asks (flash name) := by
  simp only [flash, serves_ask_bind]
  intro _ nodes
  cases openPartition nodes ("/dev/" ++ name) with
  | none => exact asks_pure
  | some handle =>
    refine (serves_ask_bind rfl).2 fun opened => ?_
    cases opened with
    | error error => exact asks_pure
    | ok _ =>
      intro s g h
      refine meets_bind.2 (meets_state.2 (meets_bind.2 (meets_update.2 ?_)))
      have hmoved : Ready { s with downloadData := [] } g := { h with buffer := .inl rfl }
      dsimp only
      split_ifs with hempty
      · exact hmoved
      · have hstaged : g.staged = some s.downloadData := h.buffer.resolve_left hempty
        refine meets_bind.2 (meets_askQuery.2 ⟨fun size => ?_, fun _ _ _ => h.terminals⟩)
        rw [learn_of_plain rfl]
        dsimp only
        split_ifs
        · exact hmoved
        · refine meets_bind.2 ⟨hstaged, fun result => ?_⟩
          have hflashed : Ready { s with downloadData := [] }
              { g with pending := none, staged := none } :=
            ⟨⟨h.sync, h.lost, .inl rfl, h.phase⟩, h.replied, h.terminals, rfl⟩
          cases result with
          | some error => exact hflashed
          | none =>
            refine (?_ : Asks _) _ _ hflashed
            simp [Option.forall]

theorem handles_flashHandler (args : List String) : Handles (flashHandler args) := by
  simp only [flashHandler, serves_ite, handles_writeFail, implies_true, true_and]
  refine fun hlen _ => serves_bind (asks_arg (by omega)) fun name => ?_
  refine serves_bind (asks_flash _) fun error => ?_
  cases error <;> simp

theorem handles_setActiveHandler (args : List String) : Handles (setActiveHandler args) := by
  simp only [setActiveHandler, serves_ite, handles_writeFail, implies_true, true_and]
  refine fun hlen _ => serves_bind (asks_arg (by omega)) fun slot => ?_
  simp

/-- After its OKAY a handler may close the transport and wait. -/
theorem Ready.terminals_okay {s : FastbootDevice} {g : Watch} (h : Ready s g) :
    (g.wrote .okay).terminals = 1 := congrArg (· + 1) h.terminals

theorem handles_shutDownHandler : Handles shutDownHandler := by
  intro s g h
  refine meets_bind.2 (meets_writeStatus.2 ⟨?_, ?_⟩)
  · exact meets_bind.2 ⟨trivial, fun _ _ _ => h.terminals_okay⟩
  · refine meets_bind.2 ⟨trivial, fun _ hw => ?_⟩
    exact absurd hw (by simp [watcher, Watch.next])

theorem handles_rebootWith (message : String) : Handles (rebootWith message) := by
  intro s g h
  refine meets_bind.2 (meets_writeStatus.2 ⟨?_, ?_⟩)
  · refine meets_bind.2 ⟨trivial, fun _ => meets_bind.2 ⟨trivial, fun forked => ?_⟩⟩
    cases forked with
    | false => exact h.replied_terminal (.inl rfl) false
    | true => exact fun _ _ => h.terminals_okay
  · refine meets_bind.2 ⟨trivial, fun _ => meets_bind.2 ⟨trivial, fun forked => ?_⟩⟩
    cases forked with
    | false => exact replied_of_writeLost rfl rfl rfl
    | true => exact fun hw => absurd hw (by simp [watcher, Watch.next])

/-! ### The register of the card -/

/-- Device and observer stay in step, whatever is replied, and no argument is read out of range. -/
def Keeps (m : DeviceM α) : Prop :=
  ∀ s g, InStep s g ∧ g.trouble = true ∧ g.pending = none →
    Meets watcher m s g fun r s' g' =>
      r ≠ .error .outOfRange ∧ InStep s' g' ∧ g'.trouble = true ∧ g'.pending = none

theorem keeps_bind {m : DeviceM α} {f : α → DeviceM β} (hm : Keeps m) (hf : ∀ a, Keeps (f a)) :
    Keeps (m >>= f) := by
  intro s g h
  refine meets_bind.2 ((hm s g h).mono fun r s' g' hr => ?_)
  cases r with
  | ok a => exact hf a s' g' hr.2
  | error e => exact ⟨fun he => hr.1 (congrArg Except.error (Except.error.inj he)), hr.2⟩

theorem keeps_pure {a : α} : Keeps (pure a) := fun _ _ h => ⟨fun he => (by cases he), h⟩

theorem keeps_ask {q : Query} (hq : q.plain = true) : Keeps (ask q) := fun _ _ h =>
  meets_askQuery.2 ⟨fun _ => ⟨fun he => (by cases he), by rwa [learn_of_plain hq]⟩,
    fun _ => ⟨fun he => (by cases he), h⟩⟩

theorem keeps_writeStatus {result : FastbootResult} {message : String} (hr : result ≠ .data) :
    Keeps (writeStatus result message) := by
  intro s g ⟨h, htrouble, hpending⟩
  have hok {b : Bool} : (Except.ok b : Except Stop Bool) ≠ .error .outOfRange :=
    fun he => (by cases he)
  refine meets_writeStatus.2 ⟨⟨hok, ?_⟩, hok, ⟨rfl, rfl, h.buffer, h.phase⟩, htrouble, hpending⟩
  cases result with
  | okay => exact ⟨⟨h.sync, h.lost, by simpa [hpending] using h.buffer, rfl⟩, htrouble, rfl⟩
  | fail => exact ⟨⟨h.sync, h.lost, h.buffer, rfl⟩, htrouble, hpending⟩
  | info => exact ⟨⟨h.sync, h.lost, h.buffer, h.phase⟩, htrouble, hpending⟩
  | data => exact absurd rfl hr

theorem keeps_writeOkay {message : String} : Keeps (writeOkay message) :=
  keeps_writeStatus (by decide)

theorem keeps_writeFail {message : String} : Keeps (writeFail message) :=
  keeps_writeStatus (by decide)

theorem keeps_writeLines (lines : List String) : Keeps (writeLines lines) := by
  induction lines with
  | nil => exact keeps_pure
  | cons line rest ih =>
    refine keeps_bind (keeps_writeStatus (by decide)) fun b => ?_
    split_ifs
    · exact ih
    · exact keeps_pure

theorem keeps_getMmcExtCsd : Keeps getMmcExtCsd := by
  refine keeps_bind (keeps_ask rfl) fun cardType => ?_
  split
  · exact keeps_writeFail
  split
  · exact keeps_writeFail
  refine keeps_bind (keeps_ask rfl) fun csd => ?_
  split
  · exact keeps_writeFail
  split
  · exact keeps_writeFail
  split
  · exact keeps_writeFail
  dsimp only
  split
  · exact keeps_writeFail
  refine keeps_bind (keeps_ask rfl) fun opened => ?_
  split
  · exact keeps_writeFail
  refine keeps_bind (keeps_ask rfl) fun bytes => ?_
  split
  · exact keeps_writeFail
  refine keeps_bind (keeps_writeLines _) fun sent => ?_
  split
  · exact keeps_writeOkay
  · exact keeps_pure

/-- The two replies to `getvar:mmc-extcsd` change nothing else. -/
theorem keeps_getVarHandler {args : List String} (h : CommandHandler.getVar.troublesome args = true) :
    Keeps (getVarHandler args) := by
  obtain ⟨hlen, hname⟩ := of_decide_eq_true h
  rw [getVarHandler, if_neg (not_lt.2 hlen), arg_of_lt hlen, pure_bind, hname]
  refine keeps_bind keeps_getMmcExtCsd fun b => ?_
  split_ifs
  · exact keeps_pure
  · exact keeps_writeOkay

/-! ### The command maps -/

/-- Every command that is not troublesome is handled. -/
theorem handles_run (build : Build) {handler : CommandHandler} {args : List String}
    (h : handler.troublesome args = false) : Handles (handler.run build args) := by
  cases handler with
  | setActive => exact handles_setActiveHandler args
  | download => exact handles_downloadHandler args
  | upload => exact handles_uploadHandler
  | getVar => exact handles_getVarHandler h
  | getVarDataPlane => exact handles_getVarHandlerDataPlane args
  | shutDown => exact handles_shutDownHandler
  | reboot => exact handles_rebootWith _
  | rebootBootloader => exact handles_rebootWith _
  | erase => exact handles_eraseHandler args
  | flash => exact handles_flashHandler args
  | oem => exact handles_oemCmdHandler build h
  | fetch => exact handles_fetchHandler build args

theorem stopped_of_trouble {e : Stop} {g : Watch} (h : g.trouble = true) (he : e ≠ .outOfRange) :
    Stopped e g := by
  cases e with
  | outOfRange => exact absurd rfl he
  | threw what => exact fun _ hno => absurd (h.symm.trans hno) (by decide)
  | paused => exact fun _ hno => absurd (h.symm.trans hno) (by decide)
  | hangs => exact h
  | undefined => exact h
  | outOfFuel => exact h

theorem InStep.replied_of_trouble {s : FastbootDevice} {g : Watch} (h : InStep s g)
    (htrouble : g.trouble = true) (b : Bool) : Replied b s g :=
  ⟨h.sync, h.lost.trans, fun _ => h.buffer, fun _ => .inl h.phase,
    fun _ hno => absurd (htrouble.symm.trans hno) (by decide)⟩

/-- The name of an `oem` command that has none is read out of range. -/
theorem oemCmdHandler_of_nameless (build : Build) {args : List String}
    (h : CommandHandler.oem.troublesome args = true) :
    oemCmdHandler build args = Prog.stop .outOfRange := by
  have hname : (split ' ' (field args 0)).length < 2 := of_decide_eq_true h
  rw [oemCmdHandler]
  by_cases hargs : 0 < args.length
  · rw [arg_of_lt hargs, pure_bind]
    dsimp only
    rw [arg_of_le (Nat.le_of_lt_succ hname)]
    rfl
  · rw [arg_of_le (not_lt.1 hargs)]
    rfl

/-- Every handler of a command that has its name meets the observer who has seen it entered. -/
theorem meets_run (build : Build) (handler : CommandHandler) (args : List String)
    {s : FastbootDevice} {g : Watch} (h : Ready s g)
    (hname : handler = .oem → handler.troublesome args = false)
    (htrouble : handler.troublesome args = true → g.trouble = true) :
    Meets watcher (handler.run build args) s g (Served Replied) := by
  cases ht : handler.troublesome args with
  | false => exact handles_run build ht s g h
  | true =>
    have hg := htrouble ht
    cases handler with
    | getVar =>
      refine (keeps_getVarHandler ht s g ⟨h.toInStep, hg, h.pending⟩).mono fun r s' g' hr => ?_
      cases r with
      | ok b => exact hr.2.1.replied_of_trouble hr.2.2.1 b
      | error e => exact stopped_of_trouble hr.2.2.1 fun he => hr.1 (congrArg Except.error he)
    | oem => exact absurd (ht.symm.trans (hname rfl)) (by decide)
    | _ => cases ht

end RpiFastbootd
