import RpiFastbootd.Lib.Runs
import RpiFastbootd.Fastboot.IdpCommands

/-!
# The provisioning commands in any order

A host may send `idpinit`, `idpwrite`, `idpgetblk` and `idpdone` in any order.  The device is
`Partitioned` exactly when an `idpwrite` has succeeded since it was initialised, but `endProvision`
completes the provisioning in every state: the answer to `idpdone` says something only when the
device is `Partitioned` already.
-/

namespace RpiFastbootd

/-- A provisioning command with what it finds outside: the staged data, the machine and the values
of a new device, or the outcomes of the storage steps. -/
inductive IdpCommand
  | init (data : String) (m : Machine) (sessionId dcap isize : ℕ)
  | write (env : Step → Bool)
  | getblk
  | done

section

variable (reader : String → Except String Json.Doc)

/-- `none` when the process dies. -/
def IdpSession.execute (s : IdpSession) : IdpCommand → Option (List Response × IdpSession)
  | .init data m sessionId dcap isize => do
    let (reply, s) ← s.oemCmdIdpInit data reader m { sessionId, dcap, isize }
    return ([reply], s)
  | .write env => do
    let (reply, s) ← s.oemCmdIdpWrite env
    return ([reply], s)
  | .getblk => some s.oemCmdIdpGetblk
  | .done =>
    let (reply, s) := s.oemCmdIdpDone
    some ([reply], s)

abbrev IdpEvent := Event IdpSession IdpCommand (List Response)

/-- What an event makes of the answer to "has this initialisation been written?". -/
def IdpEvent.written (e : IdpEvent) (w : Bool) : Bool :=
  match e.input with
  | .init .. => !okay e.output && w
  | .write _ => okay e.output || w
  | .getblk | .done => w

/-- An `idpwrite` has succeeded since the last `idpinit` that did. -/
def written (h : List IdpEvent) : Bool := h.foldl (fun w e => IdpEvent.written e w) false

theorem written_append (h : List IdpEvent) (e : IdpEvent) :
    written (h ++ [e]) = IdpEvent.written e (written h) := by
  rw [written, List.foldl_append]
  rfl

/-- An initialised device is `Partitioned` exactly when it has been written. -/
def Tracks (h : List IdpEvent) (s : IdpSession) : Prop :=
  ∀ d, s.idp = some d → (d.state = .partitioned ↔ written h)

variable {reader} {h : List IdpEvent} {s s' : IdpSession} {replies : List Response}

theorem tracks_init {data : String} {m : Machine} {sessionId dcap isize : ℕ} (hs : Tracks h s)
    (he : s.execute reader (.init data m sessionId dcap isize) = some (replies, s')) :
    Tracks (h ++ [⟨s, .init data m sessionId dcap isize, replies, s'⟩]) s' := by
  obtain ⟨⟨reply, t⟩, hinit, he⟩ := Option.bind_eq_some_iff.1 he
  cases he
  intro d hd
  rw [written_append, IdpEvent.written]
  unfold IdpSession.oemCmdIdpInit at hinit
  split_ifs at hinit with hdata hsome
  · cases hinit
    exact hs d hd
  · cases hinit
    exact hs d hd
  · split at hinit
    · cases hinit
      cases hd
    · cases hinit
      cases hd
    · cases hinit
    next d₁ hload =>
      obtain ⟨⟨r, d₂⟩, hcan, hinit⟩ := Option.bind_eq_some_iff.1 hinit
      cases r with
      | error reason =>
        cases hinit
        cases hd
      | ok =>
        cases hinit
        cases hd
        simp [(ready_of_accepted hload hcan).1, okay]

theorem tracks_write {env : Step → Bool} (hs : Tracks h s)
    (he : s.execute reader (.write env) = some (replies, s')) :
    Tracks (h ++ [⟨s, .write env, replies, s'⟩]) s' := by
  obtain ⟨⟨reply, t⟩, hwrite, he⟩ := Option.bind_eq_some_iff.1 he
  cases he
  intro d hd
  rw [written_append, IdpEvent.written]
  unfold IdpSession.oemCmdIdpWrite at hwrite
  cases hidp : s.idp with
  | none =>
    rw [hidp] at hwrite
    cases hwrite
    rw [hidp] at hd
    cases hd
  | some d₀ =>
    rw [hidp] at hwrite
    obtain ⟨r, hr, hwrite⟩ := Option.bind_eq_some_iff.1 hwrite
    have hstate := hs d₀ hidp
    unfold IDPdevice.startProvision at hr
    by_cases hready : d₀.state = .ready
    · -- The write decides: before it the device has not been written.
      rw [hready] at hstate
      have hnot : written h = false := by simpa using hstate
      rw [if_neg (not_not.2 hready)] at hr
      obtain ⟨⟨ok, j⟩, -, hr⟩ := Option.bind_eq_some_iff.1 hr
      cases hr
      cases ok <;> cases hwrite <;> cases hd <;> simp [okay, hnot]
    · rw [if_pos hready] at hr
      cases hr
      cases hwrite
      cases hd
      simpa [okay] using hstate

theorem idp_oemCmdIdpGetblk (s : IdpSession) : s.oemCmdIdpGetblk.2.idp = s.idp := by
  unfold IdpSession.oemCmdIdpGetblk
  split
  · rfl
  · split_ifs <;> rfl

/-- After `idpdone` there is no device. -/
theorem idp_oemCmdIdpDone (s : IdpSession) : s.oemCmdIdpDone.2.idp = none := by
  unfold IdpSession.oemCmdIdpDone
  split
  · assumption
  · rfl

theorem tracks_step {c : IdpCommand} (hs : Tracks h s)
    (he : s.execute reader c = some (replies, s')) : Tracks (h ++ [⟨s, c, replies, s'⟩]) s' := by
  cases c with
  | init data m sessionId dcap isize => exact tracks_init hs he
  | write env => exact tracks_write hs he
  | getblk =>
    intro d hd
    rw [written_append]
    have hs' : s.oemCmdIdpGetblk.2 = s' := (Prod.mk.inj (Option.some.inj he)).2
    rw [← hs', idp_oemCmdIdpGetblk] at hd
    exact hs d hd
  | done =>
    intro d hd
    have hs' : s.oemCmdIdpDone.2 = s' := (Prod.mk.inj (Option.some.inj he)).2
    rw [← hs', idp_oemCmdIdpDone] at hd
    cases hd

/-- A reply OKAY to `idpdone` on an initialised device says that the device has been written. -/
def DoneSound (h : List IdpEvent) : Prop :=
  ∀ earlier e later, h = earlier ++ e :: later → e.input = .done → e.before.idp.isSome →
    okay e.output → written earlier

/-- Where the device is initialised, `idpdone` finds it `Partitioned`. -/
def DonePartitioned (h : List IdpEvent) : Prop :=
  ∀ e ∈ h, e.input = .done → ∀ d, e.before.idp = some d → d.state = .partitioned

/-- In every run the answers to `idpdone` can be trusted exactly when every `idpdone` finds the
device `Partitioned`. -/
theorem idpDone_sound_iff (reader : String → Except String Json.Doc) (commands : List IdpCommand) :
    DoneSound (runs (IdpSession.execute reader) {} commands) ↔
      DonePartitioned (runs (IdpSession.execute reader) {} commands) := by
  have hinit : Tracks [] ({} : IdpSession) := fun d hd => by cases hd
  have hpoint {earlier later : List IdpEvent} {e : IdpEvent}
      (hrun : runs (IdpSession.execute reader) {} commands = earlier ++ e :: later) :=
    runs_invariant (fun _ _ _ _ _ hs he => tracks_step hs he) hinit hrun
  constructor
  · intro hsound e he hdone d hd
    obtain ⟨earlier, later, hrun⟩ := List.append_of_mem he
    obtain ⟨htracks, hstep⟩ := hpoint hrun
    refine (htracks d hd).2 (hsound earlier e later hrun hdone (by rw [hd]; rfl) ?_)
    -- Finalising always succeeds.
    rw [hdone] at hstep
    simp only [IdpSession.execute, IdpSession.oemCmdIdpDone, hd, IDPdevice.endProvision] at hstep
    simp only [Option.some.injEq, Prod.mk.injEq] at hstep
    rw [← hstep.1]
    rfl
  · intro hpart earlier e later hrun hdone hsome _
    obtain ⟨d, hd⟩ := Option.isSome_iff_exists.1 hsome
    have hmem : e ∈ runs (IdpSession.execute reader) {} commands := by simp [hrun]
    exact ((hpoint hrun).1 d hd).1 (hpart e hmem hdone d hd)

end

/-- A device that has passed the checks and is finished without having been written. -/
def unwrittenRun : List IdpEvent :=
  runs (IdpSession.execute fun _ => .ok cryptDoc) {} [.init "json" sampleMachine 1 0 0, .done]

theorem idpDone_okay_unwritten : ¬ DoneSound unwrittenRun := by
  have hmap : unwrittenRun.map (fun e => (e.before.idp.isSome, okay e.output)) =
      [(false, true), (true, true)] := by decide +kernel
  have hwritten : written (unwrittenRun.take 1) = false := by decide +kernel
  have hinputs : unwrittenRun.map (·.input) <+: [.init "json" sampleMachine 1 0 0, .done] :=
    runs_inputs_prefix _ _
  generalize unwrittenRun = h at hmap hwritten hinputs
  obtain ⟨e₀, h, rfl, -, hmap⟩ := List.map_eq_cons_iff.1 hmap
  obtain ⟨e₁, h, rfl, he₁, hmap⟩ := List.map_eq_cons_iff.1 hmap
  obtain rfl := List.map_eq_nil_iff.1 hmap
  obtain ⟨hsome, hokay⟩ := Prod.mk.inj he₁
  have hdone : e₁.input = .done := by
    have := hinputs.eq_of_length rfl
    simpa using (List.cons.inj (List.cons.inj this).2).1
  intro hsound
  have := hsound [e₀] e₁ [] rfl hdone hsome hokay
  rw [List.take_succ_cons, List.take_zero] at hwritten
  rw [hwritten] at this
  cases this

end RpiFastbootd
