import RpiFastbootd.Fastboot.Session

/-!
# Watching a session

What an observer remembers of the calls of a session: whether the current command has been answered,
what has been lost on the transport, which payload is staged.  The observer also says what the
session must not do: read a command while the one before has not been answered exactly once, enter a
handler after a failure, flash anything but the staged payload.

`Handles` is the specification of a handler against this observer.  Its rules follow the programs,
and a handler that only asks, replies with INFO lines and ends with one reply is closed by `simp`.
-/

namespace RpiFastbootd

open FastbootDevice

/-- The answers that leave a handler without an end: writes and reads without progress, and the
states in which the provisioning code dies. -/
def Query.endless : (q : Query) → q.Answer → Bool
  | writes value, results => (bulkWrite value.length 0 results).isNone
  | freads _ size, chunks => (freadLoop size [] chunks).isNone
  | idpInit data, (s, reader, m, fresh) => (s.oemCmdIdpInit data reader m fresh).isNone
  | idpWrite, (s, env) => (s.oemCmdIdpWrite env).isNone
  | _, _ => false

/-- The payload that an answer stages. -/
def Query.stages : (q : Query) → q.Answer → Option (List Byte)
  | freads _ size, chunks => freadLoop size [] chunks
  | eepromRead _, .ok image => some image
  | _, _ => none

/-- No answer to the query stages anything or is without an end. -/
@[reducible]
def Query.plain : Query → Bool
  | writes _ | freads .. | idpInit _ | idpWrite | eepromRead _ => false
  | _ => true

/-- The commands whose handlers do not answer once, whatever they find: the register of the card is
answered twice, and an `oem` without a space has no name. -/
def CommandHandler.troublesome : CommandHandler → List String → Bool
  | getVar, args => 2 ≤ args.length ∧ field args 1 = "mmc-extcsd"
  | oem, args => (split ' ' (field args 0)).length < 2
  | _, _ => false

/-- What an observer remembers. -/
structure Watch where
  /-- A command has been read. -/
  read : Bool := false
  /-- A handler has been entered for it. -/
  dispatched : Bool := false
  /-- The OKAY and FAIL responses to it. -/
  terminals : ℕ := 0
  /-- A DATA response has been sent, and no OKAY or FAIL since. -/
  inData : Bool := false
  /-- A transfer has failed or was short. -/
  lost : Bool := false
  /-- A write has failed. -/
  writeLost : Bool := false
  /-- A write has failed before a handler was entered. -/
  rejectLost : Bool := false
  /-- A troublesome command has been entered, or an answer without an end given. -/
  trouble : Bool := false
  /-- The payload that has been received for the current command. -/
  pending : Option (List Byte) := none
  /-- The payload that was staged by a command with OKAY, and has not been flashed since. -/
  staged : Option (List Byte) := none

namespace Watch

/-- A response has been sent. -/
@[simp]
def wrote (g : Watch) : FastbootResult → Watch
  | .okay => { g with
      terminals := g.terminals + 1, inData := false, pending := none,
      staged := g.pending.or g.staged }
  | .fail => { g with terminals := g.terminals + 1, inData := false }
  | .info => g
  | .data => { g with inData := true }

/-- A write has failed. -/
@[simp]
def lose (g : Watch) : Watch :=
  { g with lost := true, writeLost := true, rejectLost := g.rejectLost || !g.dispatched }

/-- A query has been answered. -/
def learn (g : Watch) (q : Query) (a : q.Answer) : Watch :=
  let g := { g with trouble := g.trouble || q.endless a }
  match q.stages a with
  | some payload => { g with pending := some payload, staged := none }
  | none => g

/-- What is remembered after a call. -/
def next (g : Watch) : (c : Call) → c.Answer → Watch
  | .readCommand, .got (_ :: _) =>
    { g with read := true, dispatched := false, terminals := 0, pending := none }
  | .readCommand, _ => { g with dispatched := false, pending := none }
  | .readData size, .got bytes =>
    if bytes.length = size then { g with pending := some bytes, staged := none }
    else { g with lost := true }
  | .readData _, .failed _ => { g with lost := true }
  | .write (.status r), true => g.wrote r.result
  | .write (.data _), true => g
  | .write _, false => g.lose
  | .close, _ => g
  | .fork, _ => g
  | .dispatch handler args, _ =>
    { g with dispatched := true, trouble := g.trouble || handler.troublesome args }
  | .flashBlockDevice .., _ => { g with pending := none, staged := none }
  | .query q, .ok a => g.learn q a
  | .query _, .error _ => g

/-- The calls that a session may make. -/
def Safe (g : Watch) : Call → Prop
  | .readCommand =>
    g.inData = false ∧ (g.read → g.writeLost ∨ g.trouble ∨ g.terminals = 1)
  | .write (.data _) => g.inData
  | .dispatch .. => g.lost → g.rejectLost
  | .flashBlockDevice _ payload _ => g.staged = some payload
  | _ => True

end Watch

/-- The observer of a session. -/
def watcher : Monitor Call Call.Answer Watch where
  safe := Watch.Safe
  next := Watch.next

/-! ### The operations of the device -/

section

variable {s : FastbootDevice} {g : Watch} {α β : Type} {l : List Response}

theorem endless_eq_false {q : Query} (h : q.plain = true) (a : q.Answer) : q.endless a = false := by
  cases q <;> first | rfl | cases h

theorem stages_eq_none {q : Query} (h : q.plain = true) (a : q.Answer) : q.stages a = none := by
  cases q <;> first | rfl | cases h

theorem learn_of_plain {q : Query} (h : q.plain = true) (a : q.Answer) : g.learn q a = g := by
  simp only [Watch.learn, stages_eq_none h, endless_eq_false h, Bool.or_false]

theorem meets_askQuery {q : Query} {Q : Except Stop q.Answer → FastbootDevice → Watch → Prop} :
    Meets watcher (ask q) s g Q ↔
      (∀ a, Q (.ok a) s (g.learn q a)) ∧ ∀ what, Q (.error (.threw what)) s g :=
  meets_ask_iff.trans (and_iff_right trivial)

theorem meets_writeStatus {result : FastbootResult} {message : String}
    {Q : Except Stop Bool → FastbootDevice → Watch → Prop} :
    Meets watcher (writeStatus result message) s g Q ↔
      Q (.ok true) { s with replied := s.replied || decide (result = .okay ∨ result = .fail) }
        (g.wrote result) ∧
      Q (.ok false) { s with transportFailed := true } g.lose :=
  meets_writeStatus_iff.trans (and_iff_right trivial)

/-! ### Handlers -/

/-- What holds between the replies of a session. -/
structure InStep (s : FastbootDevice) (g : Watch) : Prop where
  sync : s.transportFailed = g.lost
  lost : g.lost = g.writeLost
  buffer : s.downloadData = [] ∨ g.staged = some s.downloadData
  phase : g.inData = false

/-- A handler has been entered and has not replied. -/
structure Ready (s : FastbootDevice) (g : Watch) : Prop extends InStep s g where
  replied : s.replied = false
  terminals : g.terminals = 0
  pending : g.pending = none

/-- How a handler returns.  It has replied once; or it returns `false` and has not replied.  Only
where a transfer has been lost may the buffer be neither empty nor staged. -/
structure Replied (b : Bool) (s : FastbootDevice) (g : Watch) : Prop where
  sync : s.transportFailed = g.lost
  lost : g.writeLost = true → g.lost = true
  buffer : g.lost = false → s.downloadData = [] ∨ g.staged = some s.downloadData
  phase : g.lost = false → g.inData = false ∨ b = false ∧ s.replied = false
  once : g.writeLost = false → g.trouble = false →
    g.terminals = 1 ∧ s.replied = true ∨
      b = false ∧ g.terminals = 0 ∧ s.replied = false ∧ g.lost = false

/-- How a handler stops: it throws before it replies, waits after it has replied, does not read past
the end of its arguments, and does anything else only in trouble. -/
def Stopped : Stop → Watch → Prop
  | .threw _, g => g.writeLost = false → g.trouble = false → g.terminals = 0
  | .paused, g => g.writeLost = false → g.trouble = false → g.terminals = 1
  | .outOfRange, _ => False
  | _, g => g.trouble = true

/-- How a part of a handler ends. -/
def Served (P : α → FastbootDevice → Watch → Prop) :
    Except Stop α → FastbootDevice → Watch → Prop
  | .ok a, s, g => P a s g
  | .error e, _, g => Stopped e g

/-- A program that is started before the reply makes safe calls only and ends as `P` says. -/
def Serves (P : α → FastbootDevice → Watch → Prop) (m : DeviceM α) : Prop :=
  ∀ s g, Ready s g → Meets watcher m s g (Served P)

/-- The specification of a handler. -/
abbrev Handles (m : DeviceM Bool) : Prop := Serves Replied m

/-- A part of a handler that does not reply. -/
abbrev Asks (m : DeviceM α) : Prop := Serves (fun _ => Ready) m

theorem Ready.replied_false (h : Ready s g) : Replied false s g :=
  ⟨h.sync, h.lost.trans, fun _ => h.buffer, fun _ => .inl h.phase,
    fun hw _ => .inr ⟨rfl, h.terminals, h.replied, h.lost.trans hw⟩⟩

/-- A lost write leaves a handler ready. -/
theorem Ready.lose (h : Ready s g) : Ready { s with transportFailed := true } g.lose :=
  { sync := rfl, lost := rfl, buffer := h.buffer, phase := h.phase, replied := h.replied,
    terminals := h.terminals, pending := h.pending }

/-- One reply is enough. -/
theorem Ready.replied_terminal (h : Ready s g) {result : FastbootResult}
    (hr : result = .okay ∨ result = .fail) (b : Bool) :
    Replied b { s with replied := s.replied || decide (result = .okay ∨ result = .fail) }
      (g.wrote result) := by
  obtain rfl | rfl := hr
  · exact ⟨h.sync, h.lost.trans, fun _ => by simpa [h.pending] using h.buffer, fun _ => .inl rfl,
      fun _ _ => .inl ⟨by simp [h.terminals], by simp⟩⟩
  · exact ⟨h.sync, h.lost.trans, fun _ => h.buffer, fun _ => .inl rfl,
      fun _ _ => .inl ⟨by simp [h.terminals], by simp⟩⟩

section

variable {P : α → FastbootDevice → Watch → Prop} {f : β → DeviceM α} {m : DeviceM α}

@[simp ↓]
theorem serves_ite {c : Prop} [Decidable c] {n : DeviceM α} :
    Serves P (if c then m else n) ↔ (c → Serves P m) ∧ (¬ c → Serves P n) := by
  split_ifs with h <;> simp [h]

@[simp ↓]
theorem asks_pure {a : α} : Asks (pure a) := fun _ _ h => h

@[simp ↓]
theorem handles_pure_false : Handles (pure false) := fun _ _ h => h.replied_false

@[simp ↓]
theorem serves_threw {what : String} : Serves P (Prog.stop (.threw what)) :=
  fun _ _ h _ _ => h.terminals

@[simp ↓]
theorem handles_writeOkay {message : String} : Handles (writeOkay message) := fun _ _ h =>
  meets_writeStatus.2 ⟨h.replied_terminal (.inl rfl) true, h.lose.replied_false⟩

@[simp ↓]
theorem handles_writeFail {message : String} : Handles (writeFail message) := fun _ _ h =>
  meets_writeStatus.2 ⟨h.replied_terminal (.inr rfl) true, h.lose.replied_false⟩

/-- A handler may reply and return `false`. -/
@[simp ↓]
theorem handles_writeFail_false {message : String} :
    Handles (writeFail message >>= fun _ => pure false) := fun _ _ h =>
  meets_bind.2 (meets_writeStatus.2 ⟨h.replied_terminal (.inr rfl) false, h.lose.replied_false⟩)

theorem serves_bind {n : DeviceM β} (hn : Asks n) (h : ∀ b, Serves P (f b)) :
    Serves P (n >>= f) := by
  intro s g hg
  refine meets_bind.2 ((hn s g hg).mono fun r s' g' hr => ?_)
  cases r with
  | ok b => exact h b s' g' hr
  | error e => exact hr

theorem asks_arg {args : List String} {i : ℕ} (hi : i < args.length) : Asks (arg args i) := by
  rw [arg_of_lt hi]
  exact asks_pure

theorem asks_argIf {c : Prop} [Decidable c] {args : List String} {i : ℕ}
    (hi : c → i < args.length) : Asks (argIf c args i) := by
  unfold argIf
  split_ifs with hc
  · rw [arg_of_lt (hi hc), map_pure]
    exact asks_pure
  · exact asks_pure

theorem asks_ask {q : Query} (hq : q.plain = true) : Asks (ask q) := fun _ _ h =>
  meets_askQuery.2 ⟨fun a => by rwa [learn_of_plain hq], fun _ _ _ => h.terminals⟩

@[simp ↓]
theorem serves_ask_bind {q : Query} (hq : q.plain = true) {f : q.Answer → DeviceM α} :
    Serves P (@bind DeviceM _ (no_index q.Answer) α (ask q) f) ↔ ∀ a, Serves P (f a) := by
  refine ⟨fun h a s g hg => ?_, fun h => serves_bind (asks_ask hq) h⟩
  have := (meets_askQuery.1 (meets_bind.1 (h s g hg))).1 a
  rwa [learn_of_plain hq] at this

@[simp ↓]
theorem serves_map_ask {q : Query} (hq : q.plain = true) {f : q.Answer → α} :
    Serves P (@Functor.map DeviceM _ (no_index q.Answer) α f (ask q)) ↔
      ∀ a, Serves P (pure (f a)) := by
  rw [map_eq_pure_bind, serves_ask_bind hq]

/-- INFO lines leave a handler ready, whether they are written or lost. -/
theorem asks_writeInfo {message : String} : Asks (writeInfo message) := fun s g h =>
  meets_writeStatus.2 ⟨by simpa [Served] using h, h.lose⟩

theorem asks_writeInfos (lines : List String) : Asks (writeInfos lines) := by
  induction lines with
  | nil => exact asks_pure
  | cons line rest ih => exact serves_bind asks_writeInfo fun _ => ih

theorem asks_writeLines (lines : List String) : Asks (writeLines lines) := by
  induction lines with
  | nil => exact asks_pure
  | cons line rest ih =>
    exact serves_bind asks_writeInfo fun _ => serves_ite.2 ⟨fun _ => ih, fun _ => asks_pure⟩

@[simp ↓]
theorem serves_writeInfo_bind {message : String} :
    Serves P (writeInfo message >>= fun _ => m) ↔ Serves P m := by
  refine ⟨fun h s g hg => ?_, fun h => serves_bind asks_writeInfo fun _ => h⟩
  have := (meets_writeStatus.1 (meets_bind.1 (h s g hg))).1
  simpa using this

/-- A handler may read the state of its device. -/
theorem serves_state_bind {f : FastbootDevice → DeviceM α} (h : ∀ d, Serves P (f d)) :
    Serves P (Prog.state >>= f) := fun s g hg => meets_bind.2 (h s s g hg)

/-- An answer without an end stops the handler. -/
theorem serves_ask_bind_endless {q : Query} {f : q.Answer → DeviceM α}
    (hq : ∀ a, q.stages a = none) (h : ∀ a, q.endless a = false → Serves P (f a))
    (hend : ∀ a, q.endless a = true → f a = Prog.stop .hangs ∨ f a = Prog.stop .undefined) :
    Serves P (ask q >>= f) := by
  refine fun s g hg =>
    meets_bind.2 (meets_askQuery.2 ⟨fun a => ?_, fun _ _ _ => hg.terminals⟩)
  simp only [Watch.learn, hq]
  cases ha : q.endless a with
  | false => simpa using h a ha s g hg
  | true =>
    obtain he | he := hend a ha <;> rw [he] <;> exact Bool.or_true _

end

/-! ### Staging -/

/-- The buffer holds what has been received for the current command, which has not been answered. -/
structure Buffered (s : FastbootDevice) (g : Watch) : Prop where
  sync : s.transportFailed = g.lost
  lost : g.writeLost = true → g.lost = true
  replied : s.replied = false
  terminals : g.terminals = 0
  pending : g.pending = some s.downloadData

/-- A handler that has lost a write need not reply. -/
theorem replied_of_writeLost {b : Bool} (hs : s.transportFailed = true) (hl : g.lost = true)
    (hw : g.writeLost = true) : Replied b s g := by
  refine ⟨hs.trans hl.symm, fun _ => hl, fun h => ?_, fun h => ?_, fun h => ?_⟩
  · exact absurd (hl.symm.trans h) (by decide)
  · exact absurd (hl.symm.trans h) (by decide)
  · exact absurd (hw.symm.trans h) (by decide)

/-- OKAY makes the received payload the staged one. -/
theorem Buffered.meets_writeOkay (h : Buffered s g) {message : String} :
    Meets watcher (writeOkay message) s g (Served Replied) := by
  refine meets_writeStatus.2 ⟨?_, replied_of_writeLost rfl rfl rfl⟩
  exact ⟨h.sync, h.lost, fun _ => .inr (by simp [h.pending]), fun _ => .inl rfl,
    fun _ _ => .inl ⟨by simp [h.terminals], by simp⟩⟩

theorem Buffered.meets_writeInfo_bind (h : Buffered s g) {message : String} {f : Bool → DeviceM α}
    {Q : Except Stop α → FastbootDevice → Watch → Prop}
    (hf : ∀ b s' g', Buffered s' g' → Meets watcher (f b) s' g' Q) :
    Meets watcher (writeInfo message >>= f) s g Q := by
  refine meets_bind.2 (meets_writeStatus.2 ⟨hf true _ _ ?_, hf false _ _ ?_⟩)
  · exact ⟨h.sync, h.lost, by simp [h.replied], h.terminals, h.pending⟩
  · exact ⟨rfl, fun _ => rfl, h.replied, h.terminals, h.pending⟩

/-! ### Components -/

/-- INFO lines and one reply. -/
def OneReply (replies : List Response) : Prop :=
  ∃ infos r, replies = infos ++ [r] ∧ (∀ i ∈ infos, i.result = .info) ∧ r.terminal = true

theorem oneReply_singleton {r : Response} (h : r.terminal = true) : OneReply [r] :=
  ⟨[], r, rfl, by simp, h⟩

theorem OneReply.info (h : OneReply l) {r : Response} (hr : r.result = .info) :
    OneReply (r :: l) := by
  obtain ⟨infos, last, rfl, hinfos, hlast⟩ := h
  exact ⟨r :: infos, last, rfl, by simpa using ⟨hr, hinfos⟩, hlast⟩

theorem handles_writeStatus {r : Response} (h : r.terminal = true) :
    Handles (writeStatus r.result r.message) := by
  obtain h | h := of_decide_eq_true h <;> rw [h]
  · exact handles_writeOkay
  · exact handles_writeFail

theorem handles_writeReplies (h : OneReply l) : Handles (writeReplies l) := by
  obtain ⟨infos, last, rfl, hinfos, hlast⟩ := h
  induction infos with
  | nil => exact handles_writeStatus hlast
  | cons r rest ih =>
    have hr : r.result = .info := hinfos r (by simp)
    have hrest := ih fun i hi => hinfos i (by simp [hi])
    have hne : rest ++ [last] ≠ [] := by simp
    show Handles (writeReplies (r :: (rest ++ [last])))
    cases hl : rest ++ [last] with
    | nil => exact absurd hl hne
    | cons x xs =>
      rw [hl] at hrest
      show Handles (writeStatus r.result r.message >>= fun _ => writeReplies (x :: xs))
      rw [hr]
      exact serves_bind asks_writeInfo fun _ => hrest

end

end RpiFastbootd
