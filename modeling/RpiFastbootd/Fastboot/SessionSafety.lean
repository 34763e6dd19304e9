import Mathlib.Data.List.Induction
import RpiFastbootd.Fastboot.Replies

/-!
# What holds over a session

The loop meets the observer of `Watch` whatever the host sends and the system answers.  From this
follow, for every trace of a session: a command is answered exactly once before the next one is read
(unless it is one of the few that are not answered once), only a staged payload is flashed, and only
once, and no handler is entered after a failed transfer unless the loop itself has lost a reply.
-/

namespace RpiFastbootd

open FastbootDevice

/-! ### The loop -/

/-- The command that was read last has been answered once. -/
def Answered (g : Watch) : Prop :=
  g.read = true → g.writeLost = true ∨ g.trouble = true ∨ g.terminals = 1

/-- What holds between two commands. -/
structure Between (s : FastbootDevice) (g : Watch) : Prop extends InStep s g where
  rejected : g.lost = true → g.rejectLost = true
  answered : Answered g

/-- How one turn of the loop ends. -/
def Turned : Except Stop Bool → FastbootDevice → Watch → Prop
  | .ok true, s, g => Between s g
  | _, _, g => Answered g

section

variable {s : FastbootDevice} {g : Watch}

theorem answered_of_writeLost (h : g.writeLost = true) : Answered g := fun _ => .inl h

/-- The loop answers a command that has no handler. -/
theorem meets_reject (h : Between s g) (message : String) :
    Meets watcher (do let _ ← writeStatus .fail message; return true) s
      { g with read := true, dispatched := false, terminals := 0, pending := none } Turned := by
  refine meets_bind.2 (meets_writeStatus.2 ⟨?_, ?_⟩)
  · exact ⟨⟨h.sync, h.lost, h.buffer, rfl⟩, h.rejected, fun _ => .inr (.inr rfl)⟩
  · exact ⟨⟨rfl, rfl, h.buffer, h.phase⟩, fun _ => by simp, answered_of_writeLost rfl⟩

/-- After a handler has returned. -/
theorem Replied.meets_afterCommand {b : Bool} (h : Replied b s g) :
    Meets watcher (afterCommand b) s g Turned := by
  refine meets_bind.2 (meets_state.2 ?_)
  dsimp only
  rw [decideAfterCommand]
  by_cases hlost : g.lost = true
  · have hs : s.transportFailed = true := h.sync.trans hlost
    rw [if_pos hs]
    intro _
    by_cases hw : g.writeLost = true
    · exact .inl hw
    by_cases ht : g.trouble = true
    · exact .inr (.inl ht)
    obtain ⟨hone, -⟩ | ⟨-, -, -, hno⟩ :=
      h.once (Bool.eq_false_of_not_eq_true hw) (Bool.eq_false_of_not_eq_true ht)
    · exact .inr (.inr hone)
    · exact absurd (hlost.symm.trans hno) (by decide)
  · have hlost := Bool.eq_false_of_not_eq_true hlost
    have hs : s.transportFailed = false := h.sync.trans hlost
    have hw : g.writeLost = false := by
      by_contra hw
      exact absurd ((h.lost (Bool.eq_true_of_not_eq_false hw)).symm.trans hlost) (by decide)
    rw [if_neg (by simp [hs])]
    by_cases hreply : b = false ∧ s.replied = false
    · rw [if_pos (by simp [hreply])]
      refine meets_bind.2 (meets_writeStatus.2 ⟨?_, ?_⟩)
      · refine meets_bind.2 (meets_state.2 ?_)
        dsimp only
        rw [hs]
        refine ⟨⟨hlost.symm, hlost.trans hw.symm, h.buffer hlost, rfl⟩, ?_, fun _ => .inr ?_⟩
        · exact fun hno => absurd (hlost.symm.trans hno) (by decide)
        · by_cases ht : g.trouble = true
          · exact .inl ht
          · obtain ⟨-, hyes⟩ | ⟨-, hzero, -⟩ := h.once hw (Bool.eq_false_of_not_eq_true ht)
            · exact absurd (hyes.symm.trans hreply.2) (by decide)
            · exact .inr (congrArg (· + 1) hzero)
      · exact meets_bind.2 (meets_state.2 (answered_of_writeLost rfl))
    · rw [if_neg (by simpa using hreply)]
      refine ⟨⟨h.sync, hlost.trans hw.symm, h.buffer hlost, ?_⟩, ?_, fun _ => .inr ?_⟩
      · exact (h.phase hlost).resolve_right hreply
      · exact fun hno => absurd (hlost.symm.trans hno) (by decide)
      · by_cases ht : g.trouble = true
        · exact .inl ht
        · obtain ⟨hone, -⟩ | ⟨hb, -, hr, -⟩ := h.once hw (Bool.eq_false_of_not_eq_true ht)
          · exact .inr hone
          · exact absurd ⟨hb, hr⟩ hreply

/-- A command with a handler. -/
theorem meets_dispatch (h : Between s g) (config : SessionConfig) (handler : CommandHandler)
    (args : List String) :
    Meets watcher (dispatch config handler args) s
      { g with read := true, dispatched := false, terminals := 0, pending := none } Turned := by
  refine meets_bind.2 (meets_update.2 (meets_bind.2 ⟨h.rejected, fun _ => ?_⟩))
  have hready : Ready { s with replied := false }
      { g with
        read := true, dispatched := true, terminals := 0, pending := none
        trouble := g.trouble || handler.troublesome args } :=
    ⟨⟨h.sync, h.lost, h.buffer, h.phase⟩, rfl, rfl, rfl⟩
  refine meets_bind.2 (meets_rescue.2 (meets_bind.2 ?_))
  by_cases hnameless : handler = .oem ∧ handler.troublesome args = true
  · obtain ⟨rfl, ht⟩ := hnameless
    show Meets watcher (oemCmdHandler config.build args) _ _ _
    rw [oemCmdHandler_of_nameless config.build ht]
    exact fun _ => .inr (.inl (by simp [watcher, Watch.next, ht]))
  have hname : handler = .oem → handler.troublesome args = false :=
    fun hoem => Bool.eq_false_iff.2 fun ht => hnameless ⟨hoem, ht⟩
  refine (meets_run config.build handler args hready hname fun ht => by simp [ht]).mono
    fun r s' g' hr => ?_
  cases r with
  | ok b => exact Replied.meets_afterCommand hr
  | error e =>
    cases e with
    | threw what =>
      refine meets_bind.2 (meets_writeStatus.2 ⟨fun _ => ?_, answered_of_writeLost rfl⟩)
      by_cases hw : g'.writeLost = true
      · exact .inl hw
      by_cases ht : g'.trouble = true
      · exact .inr (.inl ht)
      have hzero := hr (Bool.eq_false_of_not_eq_true hw) (Bool.eq_false_of_not_eq_true ht)
      exact .inr (.inr (congrArg (· + 1) hzero))
    | paused =>
      intro _
      by_cases hw : g'.writeLost = true
      · exact .inl hw
      by_cases ht : g'.trouble = true
      · exact .inr (.inl ht)
      exact .inr (.inr (hr (Bool.eq_false_of_not_eq_true hw) (Bool.eq_false_of_not_eq_true ht)))
    | outOfRange => exact hr.elim
    | hangs | undefined | outOfFuel => exact fun _ => .inr (.inl hr)

theorem meets_executeCommand (h : Between s g) (config : SessionConfig) :
    Meets watcher (executeCommand config) s g Turned := by
  refine meets_bind.2 ⟨⟨h.phase, h.answered⟩, fun received => ?_⟩
  cases received with
  | failed e => exact h.answered
  | got command =>
    cases command with
    | nil => exact h.answered
    | cons b bytes =>
      refine meets_pure.2 ?_
      dsimp only
      cases hparse : config.parse (b :: bytes) with
      | controlCharacter => exact meets_reject h _
      | unrecognized args =>
        dsimp only
        rw [arg_of_lt (SessionConfig.length_args_pos hparse), pure_bind]
        exact meets_reject h _
      | command handler args => exact meets_dispatch h config handler args

theorem meets_executeCommands (h : Between s g) (config : SessionConfig) (n : ℕ) :
    Meets watcher (executeCommands config n) s g fun _ _ g' => Answered g' := by
  induction n generalizing s g with
  | zero => exact h.answered
  | succ n ih =>
    refine meets_bind.2 ((meets_executeCommand h config).mono fun r s' g' hr => ?_)
    match r with
    | .ok true => exact ih hr
    | .ok false => exact hr
    | .error e => exact hr

end

/-- A run of a session from its start, to its end or cut off anywhere. -/
abbrev SessionTrace (config : SessionConfig) (n : ℕ) (t : List SessionEvent)
    (r : Option (Except Stop Unit)) : Prop := Trace (executeCommands config n) {} t r

/-- What is remembered after a trace. -/
def watch (t : List SessionEvent) : Watch := watcher.after {} t

theorem watch_append (t u : List SessionEvent) : watch (t ++ u) = watcher.after (watch t) u :=
  watcher.after_append {} t u

theorem watch_concat (t : List SessionEvent) (e : SessionEvent) :
    watch (t ++ [e]) = (watch t).next e.1 e.2 := watch_append t [e]

section

variable {config : SessionConfig} {n : ℕ} {t : List SessionEvent} {r : Option (Except Stop Unit)}

/-- Every call of a session is safe, and its last command is answered. -/
theorem SessionTrace.sound (ht : SessionTrace config n t r) :
    (∀ t₁ e t₂, t = t₁ ++ e :: t₂ → (watch t₁).Safe e.1) ∧
      ∀ x, r = some x → Answered (watch t) := by
  have h : Between {} {} := ⟨⟨rfl, rfl, .inl rfl, rfl⟩, fun h => h, fun h => by cases h⟩
  obtain ⟨hsafe, hend⟩ := (meets_executeCommands h config n).sound ht
  refine ⟨hsafe, fun x hx => ?_⟩
  obtain ⟨_, h⟩ := hend x hx
  exact h

/-! ### A host for examples -/

/-- Commands and the data of downloads, in order, and the outcomes of the writes, which succeed from
then on. -/
structure SampleHost where
  commands : List String := []
  data : List (List Byte) := []
  writes : List Bool := []

def bytesOf (s : String) : List Byte := s.toList.map fun c => BitVec.ofNat 8 c.toNat

/-- A system with a disk of 512 bytes and without a card. -/
def sampleSystem : (q : Query) → Except String q.Answer
  | .allocate _ => .ok ()
  | .acquire _ => .ok ()
  | .nodes => .ok fun _ => true
  | .openFile _ => .ok (.ok ())
  | .blockDeviceSize _ => .ok 512
  | .isWholeDisk _ => .ok false
  | .readFile _ => .ok none
  | _ => .error "not here"

def SampleHost.answer (h : SampleHost) : (c : Call) → c.Answer × SampleHost
  | .readCommand => (.got (bytesOf (h.commands.headD "")), { h with commands := h.commands.tail })
  | .readData _ => (.got (h.data.headD []), { h with data := h.data.tail })
  | .write _ => (h.writes.headD true, { h with writes := h.writes.tail })
  | .close => ((), h)
  | .dispatch .. => ((), h)
  | .flashBlockDevice .. => (none, h)
  | .fork => (false, h)
  | .query q => (sampleSystem q, h)

def sampleConfig : SessionConfig where
  build := ⟨false, false, false⟩
  dataPlaneOnly := false

/-- The session with a host, for a number of commands. -/
def sampleSession (n : ℕ) (h : SampleHost) : List SessionEvent × Except Stop Unit :=
  (executeCommands sampleConfig n).run SampleHost.answer {} h

theorem sessionTrace_sample (n : ℕ) (h : SampleHost) :
    SessionTrace sampleConfig n (sampleSession n h).1 (some (sampleSession n h).2) :=
  trace_run SampleHost.answer (executeCommands sampleConfig n) {} h

/-- A download of four bytes and their flash. -/
def flashHost : SampleHost where
  commands := ["download:00000004", "flash:sda"]
  data := [[1, 2, 3, 4]]

/-! ### What the observer remembers, in terms of the events -/

namespace SessionEvent

/-- A write has failed. -/
def writeFailed : SessionEvent → Bool
  | ⟨.write _, false⟩ => true
  | _ => false

/-- A transfer has failed or was short: `transport_failed_` is set. -/
def failed : SessionEvent → Bool
  | ⟨.write _, false⟩ => true
  | ⟨.readData size, .got bytes⟩ => bytes.length ≠ size
  | ⟨.readData _, .failed _⟩ => true
  | _ => false

/-- An OKAY or FAIL has been sent. -/
def replies : SessionEvent → Bool
  | ⟨.write (.status r), true⟩ => r.terminal
  | _ => false

/-- An OKAY has been sent. -/
def okay : SessionEvent → Bool
  | ⟨.write (.status r), true⟩ => r.result = .okay
  | _ => false

/-- A troublesome command has been entered, or an answer without an end given. -/
def troublesome : SessionEvent → Bool
  | ⟨.dispatch handler args, _⟩ => handler.troublesome args
  | ⟨.query q, .ok a⟩ => q.endless a
  | _ => false

def readsCommand : SessionEvent → Bool
  | ⟨.readCommand, _⟩ => true
  | _ => false

def flashes : SessionEvent → Bool
  | ⟨.flashBlockDevice .., _⟩ => true
  | _ => false

/-- Whether a handler has been entered for the current command. -/
def entered (before : Bool) : SessionEvent → Bool
  | ⟨.readCommand, _⟩ => false
  | ⟨.dispatch .., _⟩ => true
  | _ => before

/-- The payload that has been received or read whole. -/
def payload : SessionEvent → Option (List Byte)
  | ⟨.readData size, .got bytes⟩ => if bytes.length = size then some bytes else none
  | ⟨.query q, .ok a⟩ => q.stages a
  | _ => none

end SessionEvent

/-- What an event does to the memory of the observer.  Most events touch little of it, and what is
not said of an event is that it leaves the field alone. -/
structure Observed (g g' : Watch) (e : SessionEvent) : Prop where
  lost : g'.lost = (g.lost || e.failed) := by exact (Bool.or_false _).symm
  writeLost : g'.writeLost = (g.writeLost || e.writeFailed) := by exact (Bool.or_false _).symm
  rejectLost : g'.rejectLost = (g.rejectLost || e.writeFailed && !g.dispatched) := by
    exact (Bool.or_false _).symm
  trouble : g'.trouble = (g.trouble || e.troublesome) := by exact (Bool.or_false _).symm
  dispatched : g'.dispatched = e.entered g.dispatched := by rfl
  read : e.readsCommand = false → g'.read = g.read := by exact fun _ => rfl
  terminals : e.readsCommand = false → g'.terminals = g.terminals + e.replies.toNat := by
    exact fun _ => rfl
  pending : ∀ p, g'.pending = some p →
      e.payload = some p ∨ g.pending = some p ∧ e.readsCommand = false ∧ e.flashes = false := by
    exact fun _ h => .inr ⟨h, rfl, rfl⟩
  staged : ∀ p, g'.staged = some p →
      e.okay = true ∧ g.pending = some p ∨ g.staged = some p ∧ e.flashes = false := by
    exact fun _ h => .inr ⟨h, rfl⟩

theorem observed_readCommand (g : Watch) (a : Received) :
    Observed g (g.next .readCommand a) ⟨.readCommand, a⟩ := by
  -- An empty command, a command, and a disconnect.
  obtain (_ | ⟨b, bytes⟩) | bytes := a
  all_goals exact {
    read := fun h => by cases h
    terminals := fun h => by cases h
    pending := fun p h => by cases h }

theorem observed_readData (g : Watch) (size : ℕ) (a : Received) :
    Observed g (g.next (.readData size) a) ⟨.readData size, a⟩ := by
  cases a with
  | failed bytes => exact { lost := (Bool.or_true _).symm }
  | got bytes =>
    by_cases hlen : bytes.length = size
    · have hnext : g.next (.readData size) (.got bytes) =
          { g with pending := some bytes, staged := none } := if_pos hlen
      have hfailed : SessionEvent.failed ⟨.readData size, .got bytes⟩ = false :=
        decide_eq_false (not_not.2 hlen)
      have hpayload : SessionEvent.payload ⟨.readData size, .got bytes⟩ = some bytes := if_pos hlen
      rw [hnext]
      exact {
        lost := by rw [hfailed, Bool.or_false]
        pending := fun p h => .inl (hpayload.trans h)
        staged := fun p h => by cases h }
    · have hnext : g.next (.readData size) (.got bytes) = { g with lost := true } := if_neg hlen
      have hfailed : SessionEvent.failed ⟨.readData size, .got bytes⟩ = true := decide_eq_true hlen
      rw [hnext]
      exact { lost := by rw [hfailed, Bool.or_true] }

theorem observed_write (g : Watch) (p : Packet) (a : Bool) :
    Observed g (g.next (.write p) a) ⟨.write p, a⟩ := by
  cases a with
  | false =>
    have hnext : g.next (.write p) false = g.lose := by cases p <;> rfl
    have hreplies : SessionEvent.replies ⟨.write p, false⟩ = false := by cases p <;> rfl
    rw [hnext]
    exact {
      lost := (Bool.or_true _).symm
      writeLost := (Bool.or_true _).symm
      rejectLost := rfl
      terminals := fun _ => by rw [hreplies]; rfl }
  | true =>
    cases p with
    | data bytes => exact {}
    | status r =>
      obtain ⟨result, message⟩ := r
      cases result with
      | info => exact {}
      | data => exact {}
      | fail => exact {}
      | okay =>
        refine {
          pending := fun p h => by cases h
          staged := fun p h => ?_ }
        obtain h | ⟨-, h⟩ := Option.or_eq_some_iff.1 h
        · exact .inl ⟨rfl, h⟩
        · exact .inr ⟨h, rfl⟩

theorem observed_query (g : Watch) (q : Query) (a : q.Answer) :
    Observed g (g.learn q a) ⟨.query q, .ok a⟩ := by
  have hp : SessionEvent.payload ⟨.query q, .ok a⟩ = q.stages a := rfl
  cases hs : q.stages a with
  | none =>
    have hlearn : g.learn q a = { g with trouble := g.trouble || q.endless a } := by
      rw [Watch.learn, hs]
    rw [hlearn]
    exact { trouble := rfl }
  | some payload =>
    have hlearn : g.learn q a = { g with
        trouble := g.trouble || q.endless a, pending := some payload, staged := none } := by
      rw [Watch.learn, hs]
    rw [hlearn]
    exact {
      trouble := rfl
      pending := fun p h => .inl (hp.trans (hs.trans h))
      staged := fun p h => by cases h }

theorem observed (g : Watch) (e : SessionEvent) : Observed g (g.next e.1 e.2) e := by
  obtain ⟨c, a⟩ := e
  cases c with
  | readCommand => exact observed_readCommand g a
  | readData size => exact observed_readData g size a
  | write p => exact observed_write g p a
  | close => exact {}
  | fork => exact {}
  | dispatch handler args => exact { trouble := rfl }
  | flashBlockDevice path payload size =>
    exact {
      pending := fun p h => by cases h
      staged := fun p h => by cases h }
  | query q =>
    cases a with
    | error what => exact {}
    | ok a => exact observed_query g q a

theorem lost_watch (t : List SessionEvent) : (watch t).lost = t.any SessionEvent.failed := by
  induction t using List.reverseRecOn with
  | nil => rfl
  | append_singleton t e ih => rw [watch_concat, (observed _ e).lost, ih]; simp

theorem writeLost_watch (t : List SessionEvent) :
    (watch t).writeLost = t.any SessionEvent.writeFailed := by
  induction t using List.reverseRecOn with
  | nil => rfl
  | append_singleton t e ih => rw [watch_concat, (observed _ e).writeLost, ih]; simp

theorem trouble_watch (t : List SessionEvent) :
    (watch t).trouble = t.any SessionEvent.troublesome := by
  induction t using List.reverseRecOn with
  | nil => rfl
  | append_singleton t e ih => rw [watch_concat, (observed _ e).trouble, ih]; simp

/-- Whether a handler has been entered for the last command of a trace. -/
def entered (t : List SessionEvent) : Bool := t.foldl SessionEvent.entered false

theorem dispatched_watch (t : List SessionEvent) : (watch t).dispatched = entered t := by
  induction t using List.reverseRecOn with
  | nil => rfl
  | append_singleton t e ih =>
    rw [watch_concat, (observed _ e).dispatched, ih, entered, entered, List.foldl_concat]

/-! ### One reply to each command -/

/-- The replies among some events. -/
def replyCount (t : List SessionEvent) : ℕ := t.countP SessionEvent.replies

/-- Every command that is read is answered exactly once, before the next one is read or the session
ends. -/
structure AnsweredOnce (t : List SessionEvent) (ended : Bool) : Prop where
  next : ∀ t₁ b bytes u a t₂,
    t = t₁ ++ ⟨.readCommand, .got (b :: bytes)⟩ :: (u ++ ⟨.readCommand, a⟩ :: t₂) →
    (∀ e ∈ u, e.readsCommand = false) → replyCount u = 1
  last : ended = true → ∀ t₁ b bytes u, t = t₁ ++ ⟨.readCommand, .got (b :: bytes)⟩ :: u →
    (∀ e ∈ u, e.readsCommand = false) → replyCount u = 1

theorem watch_command (t : List SessionEvent) (b : Byte) (bytes : List Byte)
    {u : List SessionEvent} (hu : ∀ e ∈ u, e.readsCommand = false) :
    (watch (t ++ ⟨.readCommand, .got (b :: bytes)⟩ :: u)).read = true ∧
      (watch (t ++ ⟨.readCommand, .got (b :: bytes)⟩ :: u)).terminals = replyCount u := by
  induction u using List.reverseRecOn with
  | nil => rw [watch_concat]; exact ⟨rfl, rfl⟩
  | append_singleton u e ih =>
    have he : e.readsCommand = false := hu e (by simp)
    obtain ⟨hread, hterminals⟩ := ih fun e he => hu e (by simp [he])
    have happ : t ++ ⟨.readCommand, .got (b :: bytes)⟩ :: (u ++ [e]) =
        (t ++ ⟨.readCommand, .got (b :: bytes)⟩ :: u) ++ [e] := by simp
    rw [happ, watch_concat, (observed _ e).read he, (observed _ e).terminals he, hread, hterminals]
    refine ⟨rfl, ?_⟩
    rw [replyCount, replyCount, List.countP_append, List.countP_singleton]
    cases e.replies <;> rfl

/-- In every session without a lost write, a troublesome command or an answer without an end, every
command is answered exactly once. -/
theorem commands_answered_once (config : SessionConfig) (n : ℕ) (t : List SessionEvent)
    (r : Option (Except Stop Unit)) (ht : SessionTrace config n t r)
    (hwrites : ∀ e ∈ t, e.writeFailed = false) (hplain : ∀ e ∈ t, e.troublesome = false) :
    AnsweredOnce t r.isSome := by
  obtain ⟨hsafe, hend⟩ := ht.sound
  have hanswered {u : List SessionEvent} (hu : ∀ e ∈ u, e ∈ t) (h : Answered (watch u))
      (hread : (watch u).read = true) : (watch u).terminals = 1 := by
    obtain hw | ht | hone := h hread
    · rw [writeLost_watch, List.any_eq_true] at hw
      obtain ⟨e, he, hfailed⟩ := hw
      exact absurd (hfailed.symm.trans (hwrites e (hu e he))) (by decide)
    · rw [trouble_watch, List.any_eq_true] at ht
      obtain ⟨e, he, htrouble⟩ := ht
      exact absurd (htrouble.symm.trans (hplain e (hu e he))) (by decide)
    · exact hone
  constructor
  · intro t₁ b bytes u a t₂ heq hu
    obtain ⟨hread, hterminals⟩ := watch_command t₁ b bytes hu
    rw [← hterminals]
    have hsplit : t = (t₁ ++ ⟨.readCommand, .got (b :: bytes)⟩ :: u) ++ ⟨.readCommand, a⟩ :: t₂ := by
      rw [heq]; simp
    refine hanswered (fun e he => ?_) (hsafe _ _ _ hsplit).2 hread
    rw [hsplit]
    exact List.mem_append_left _ he
  · intro hr t₁ b bytes u heq hu
    obtain ⟨x, hx⟩ := Option.isSome_iff_exists.1 hr
    obtain ⟨hread, hterminals⟩ := watch_command t₁ b bytes hu
    rw [← hterminals, ← heq]
    rw [← heq] at hread
    exact hanswered (fun _ he => he) (hend x hx) hread

theorem commands_answered_once_flash : AnsweredOnce (sampleSession 3 flashHost).1 true :=
  commands_answered_once sampleConfig 3 _ _ (sessionTrace_sample 3 flashHost)
    (by decide +kernel) (by decide +kernel)

/-- `getvar:mmc-extcsd` is answered with FAIL and OKAY. -/
theorem extcsd_answered_twice : ∃ t r, SessionTrace sampleConfig 2 t r ∧
    (∀ e ∈ t, e.writeFailed = false) ∧ ¬ AnsweredOnce t r.isSome := by
  refine ⟨_, _, sessionTrace_sample 2 { commands := ["getvar:mmc-extcsd"] }, by decide +kernel,
    fun h => ?_⟩
  have hcount := h.next [] 0x67 (bytesOf "etvar:mmc-extcsd")
    [⟨.dispatch .getVar ["getvar", "mmc-extcsd"], ()⟩,
      ⟨.query (.readFile "/sys/block/mmcblk0/device/type"), .ok none⟩,
      ⟨.write (.status ⟨.fail, "Cannot determine card type (no /sys/block/mmcblk0/device/type)"⟩),
        true⟩,
      ⟨.write (.status ⟨.okay, ""⟩), true⟩] (.got []) [] rfl (by decide)
  exact absurd hcount (by decide)

/-! ### No handler after a failed reply -/

/-- Every write that fails belongs to a handler, or comes after one for the same command: no reply
is lost with which the loop itself turns a command down. -/
def RejectionsDelivered (t : List SessionEvent) : Prop :=
  ∀ t₁ p t₂, t = t₁ ++ ⟨.write p, false⟩ :: t₂ → entered t₁ = true

theorem exists_write_of_writeFailed {e : SessionEvent} (h : e.writeFailed = true) :
    ∃ p, e = ⟨.write p, false⟩ := by
  unfold SessionEvent.writeFailed at h
  split at h
  · exact ⟨_, rfl⟩
  · cases h

theorem rejectLost_watch {t : List SessionEvent} (h : RejectionsDelivered t) :
    (watch t).rejectLost = false := by
  induction t using List.reverseRecOn with
  | nil => rfl
  | append_singleton t e ih =>
    rw [watch_concat, (observed _ e).rejectLost, ih fun t₁ p t₂ heq =>
      h t₁ p (t₂ ++ [e]) (by simp [heq]), dispatched_watch]
    cases he : e.writeFailed with
    | false => rfl
    | true =>
      obtain ⟨p, rfl⟩ := exists_write_of_writeFailed he
      rw [h t p [] rfl]
      rfl

/-- Once a reply has failed, or a transfer, no handler is entered, as long as the loop loses no reply
of its own. -/
theorem no_handler_after_failure (config : SessionConfig) (n : ℕ) (t : List SessionEvent)
    (r : Option (Except Stop Unit)) (ht : SessionTrace config n t r) (h : RejectionsDelivered t)
    (t₁ : List SessionEvent) (handler : CommandHandler) (args : List String)
    (t₂ : List SessionEvent) (heq : t = t₁ ++ ⟨.dispatch handler args, ()⟩ :: t₂) :
    ∀ e ∈ t₁, e.failed = false := by
  have hsafe : (watch t₁).lost = true → (watch t₁).rejectLost = true := ht.sound.1 t₁ _ t₂ heq
  have hdelivered : (watch t₁).rejectLost = false := by
    refine rejectLost_watch fun u p v hu => h u p (v ++ ⟨.dispatch handler args, ()⟩ :: t₂) ?_
    rw [heq, hu]
    simp
  intro e he
  by_contra hfailed
  have hlost : (watch t₁).lost = true := by
    rw [lost_watch, List.any_eq_true]
    exact ⟨e, he, Bool.eq_true_of_not_eq_false hfailed⟩
  exact absurd ((hsafe hlost).symm.trans hdelivered) (by decide)

theorem rejectionsDelivered_of_take {t : List SessionEvent}
    (h : ∀ i : Fin t.length, (t.get i).writeFailed = true → entered (t.take i) = true) :
    RejectionsDelivered t := by
  intro t₁ p t₂ heq
  subst heq
  have hlt : t₁.length < (t₁ ++ (⟨.write p, false⟩ : SessionEvent) :: t₂).length := by simp
  have hi := h ⟨t₁.length, hlt⟩
  rw [List.get_eq_getElem, List.getElem_append_right (le_refl _), List.take_left] at hi
  apply hi
  simp [SessionEvent.writeFailed]

/-- A session whose only lost write is the reply of a handler. -/
def lostReplyHost : SampleHost where
  commands := ["boot", "set_active"]
  writes := [true, false]

theorem no_handler_after_failure_lostReply :
    ∃ t₁ t₂, (sampleSession 3 lostReplyHost).1 =
      t₁ ++ ⟨.dispatch .setActive ["set_active"], ()⟩ :: t₂ ∧ t₂ ≠ [] ∧
      ∀ e ∈ t₁, e.failed = false := by
  refine ⟨(sampleSession 3 lostReplyHost).1.take 3, (sampleSession 3 lostReplyHost).1.drop 4, rfl,
    by decide +kernel, ?_⟩
  refine no_handler_after_failure sampleConfig 3 _ _ (sessionTrace_sample 3 lostReplyHost) ?_ _ _ _
    _ rfl
  exact rejectionsDelivered_of_take (by decide +kernel)

/-- An unknown command whose reply is lost, and a command after it. -/
def lostRejectionHost : SampleHost where
  commands := ["boot", "erase:sda"]
  writes := [false]

theorem handler_after_lost_rejection : ∃ t r t₁ handler args t₂,
    SessionTrace sampleConfig 2 t r ∧ t = t₁ ++ ⟨.dispatch handler args, ()⟩ :: t₂ ∧
      ∃ e ∈ t₁, e.failed = true := by
  refine ⟨_, _, (sampleSession 2 lostRejectionHost).1.take 3, .erase, ["erase", "sda"],
    (sampleSession 2 lostRejectionHost).1.drop 4, sessionTrace_sample 2 lostRejectionHost, rfl, ?_⟩
  decide +kernel

/-! ### Staged payloads -/

/-- A transfer or a staging operation that has filled its buffer completely. -/
inductive Fills : SessionEvent → List Byte → Prop
  | download {size : ℕ} {bytes : List Byte} (h : bytes.length = size) :
      Fills ⟨.readData size, .got bytes⟩ bytes
  | uploadFile {path : String} {size : ℕ} {chunks : List (List Byte)} {bytes : List Byte}
      (h : freadLoop size [] chunks = some bytes) (hlen : bytes.length = size) :
      Fills ⟨.query (.freads path size), .ok chunks⟩ bytes
  | eepromRead {spidev : String} {image : List Byte} :
      Fills ⟨.query (.eepromRead spidev), .ok (.ok image)⟩ image

theorem fills_of_payload {e : SessionEvent} {p : List Byte} (h : e.payload = some p) :
    Fills e p := by
  unfold SessionEvent.payload at h
  split at h
  · split_ifs at h with hlen
    cases h
    exact .download hlen
  · unfold Query.stages at h
    split at h
    · exact .uploadFile h (length_freadLoop (Nat.zero_le _) h)
    · cases h
      exact .eepromRead
    · cases h
  · cases h

/-- The payload was received whole for a command that was answered with OKAY, and nothing has been
flashed since it was received. -/
def StagedIn (t : List SessionEvent) (payload : List Byte) : Prop :=
  ∃ u e v reply w, t = u ++ e :: (v ++ reply :: w) ∧ Fills e payload ∧
    (∀ x ∈ v, x.readsCommand = false ∧ x.flashes = false) ∧ reply.okay = true ∧
    ∀ x ∈ w, x.flashes = false

theorem pending_watch {t : List SessionEvent} {p : List Byte} (h : (watch t).pending = some p) :
    ∃ u e v, t = u ++ e :: v ∧ Fills e p ∧
      ∀ x ∈ v, x.readsCommand = false ∧ x.flashes = false := by
  induction t using List.reverseRecOn with
  | nil => cases h
  | append_singleton t e ih =>
    rw [watch_concat] at h
    obtain h | ⟨h, hread, hflashes⟩ := (observed _ e).pending p h
    · exact ⟨t, e, [], rfl, fills_of_payload h, by simp⟩
    · obtain ⟨u, e', v, rfl, hfills, hv⟩ := ih h
      refine ⟨u, e', v ++ [e], by simp, hfills, fun x hx => ?_⟩
      obtain hx | hx := List.mem_append.1 hx
      · exact hv x hx
      · rw [List.mem_singleton.1 hx]
        exact ⟨hread, hflashes⟩

theorem staged_watch {t : List SessionEvent} {p : List Byte} (h : (watch t).staged = some p) :
    StagedIn t p := by
  induction t using List.reverseRecOn with
  | nil => cases h
  | append_singleton t e ih =>
    rw [watch_concat] at h
    obtain ⟨hokay, h⟩ | ⟨h, hflashes⟩ := (observed _ e).staged p h
    · obtain ⟨u, e', v, rfl, hfills, hv⟩ := pending_watch h
      exact ⟨u, e', v, e, [], by simp, hfills, hv, hokay, by simp⟩
    · obtain ⟨u, e', v, reply, w, rfl, hfills, hv, hokay, hw⟩ := ih h
      refine ⟨u, e', v, reply, w ++ [e], by simp, hfills, hv, hokay, fun x hx => ?_⟩
      obtain hx | hx := List.mem_append.1 hx
      · exact hw x hx
      · rw [List.mem_singleton.1 hx]
        exact hflashes

/-- Whatever is flashed was staged completely in the same session, and has not been flashed
before. -/
theorem flash_staged (config : SessionConfig) (n : ℕ) (t : List SessionEvent)
    (r : Option (Except Stop Unit)) (ht : SessionTrace config n t r) (t₁ : List SessionEvent)
    (path : String) (payload : List Byte) (size : ℕ) (a : Option String) (t₂ : List SessionEvent)
    (heq : t = t₁ ++ ⟨.flashBlockDevice path payload size, a⟩ :: t₂) : StagedIn t₁ payload := by
  have hsafe : (watch t₁).staged = some payload := ht.sound.1 t₁ _ t₂ heq
  exact staged_watch hsafe

theorem flash_staged_sample : ∃ t₁ t₂, (sampleSession 3 flashHost).1 =
    t₁ ++ ⟨.flashBlockDevice "/dev/sda" [1, 2, 3, 4] 512, none⟩ :: t₂ ∧
      StagedIn t₁ [1, 2, 3, 4] :=
  ⟨(sampleSession 3 flashHost).1.take 12, (sampleSession 3 flashHost).1.drop 13, rfl,
    flash_staged sampleConfig 3 _ _ (sessionTrace_sample 3 flashHost) _ _ _ _ _ _ rfl⟩

end

end RpiFastbootd
