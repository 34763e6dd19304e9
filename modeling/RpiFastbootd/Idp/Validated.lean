import RpiFastbootd.Lib.Runs
import RpiFastbootd.Idp.Provision

/-!
# Ready devices and validated descriptions

A device that is `Ready` should hold the image and the partitions that `canProvision` has checked:
`startProvision` looks at the state only.  `Initialise` takes over the image and the partitions
before its last check, that there are partitions at all, so a description without partitions
replaces what has been checked and leaves the state.  In every run without such a description the
contents of a `Ready` device have been checked.
-/

namespace RpiFastbootd

/-- A call of a public operation of the device. -/
inductive DeviceCall
  | initialise (text : String)
  | canProvision (m : Machine)
  | startProvision (env : Step → Bool) (reason : String)
  | endProvision

/-- The returned value (an exception counts as `false`), and the steps performed. -/
structure CallResult where
  ok : Bool
  log : List Step := []

/-- The contents of a device that a check is about. -/
def IDPdevice.contents (d : IDPdevice) : IDPimage × List IDPpartition := (d.image, d.partitions)

section

variable (reader : String → Except String Json.Doc)

/-- `none` when the process dies. -/
def IDPdevice.call (d : IDPdevice) : DeviceCall → Option (CallResult × IDPdevice)
  | .initialise text =>
    match d.initialise reader text with
    | (.ok (), d) => some (⟨true, []⟩, d)
    | (.error .outOfFuel, _) => none
    | (.error _, d) => some (⟨false, []⟩, d)
  | .canProvision m => do
    match ← d.canProvision m with
    | (.ok (), d) => return (⟨true, []⟩, d)
    | (.error _, d) => return (⟨false, []⟩, d)
  | .startProvision env reason => do
    let r ← d.startProvision env reason
    return (⟨r.ok, r.log⟩, r.device)
  | .endProvision =>
    let (ok, d) := d.endProvision
    some (⟨ok, []⟩, d)

abbrev DeviceEvent := Event IDPdevice DeviceCall CallResult

/-- The contents after an event for which `canProvision` last succeeded. -/
def DeviceEvent.validated (e : DeviceEvent) (v : Option (IDPimage × List IDPpartition)) :
    Option (IDPimage × List IDPpartition) :=
  match e.input with
  | .canProvision _ => if e.output.ok then some e.before.contents else v
  | _ => v

/-- The contents for which `canProvision` last succeeded. -/
def lastValidated (h : List DeviceEvent) : Option (IDPimage × List IDPpartition) :=
  h.foldl (fun v e => DeviceEvent.validated e v) none

theorem lastValidated_append (h : List DeviceEvent) (e : DeviceEvent) :
    lastValidated (h ++ [e]) = DeviceEvent.validated e (lastValidated h) := by
  rw [lastValidated, List.foldl_append]
  rfl

/-- `Initialise` of the device comes to the text, loads it, and finds no partitions in it. -/
def Partless (d : IDPdevice) (text : String) : Prop :=
  d.state ≠ .writing ∧ text ≠ "" ∧ (d.parser.loadJSON reader text).1 = .ok () ∧
    (d.parser.loadJSON reader text).2.partitions = []

variable {reader}

/-! ### What a call changes -/

theorem initialise_of_call {d d' : IDPdevice} {text : String} {o : CallResult}
    (h : d.call reader (.initialise text) = some (o, d')) :
    (o.ok = true ∧ d.initialise reader text = (.ok (), d')) ∨
      ∃ e, o.ok = false ∧ d.initialise reader text = (.error e, d') := by
  simp only [IDPdevice.call] at h
  split at h
  next hi =>
    cases h
    exact .inl ⟨rfl, hi⟩
  · cases h
  next e _ _ hi =>
    cases h
    exact .inr ⟨e, rfl, hi⟩

/-- Without a description that is `Partless`, an `Initialise` that fails changes nothing a check is
about. -/
theorem initialise_frame {d d' : IDPdevice} {text : String} {e : LoadError}
    (h : d.initialise reader text = (.error e, d')) (hp : ¬ Partless reader d text) :
    d'.state = d.state ∧ d'.contents = d.contents := by
  unfold IDPdevice.initialise at h
  split_ifs at h with hw ht
  · cases h
    exact ⟨rfl, rfl⟩
  · cases h
    exact ⟨rfl, rfl⟩
  · split at h
    · cases h
      exact ⟨rfl, rfl⟩
    next parser hload =>
      dsimp only at h
      split at h
      · cases h
        exact ⟨rfl, rfl⟩
      · split_ifs at h with hempty
        · exact (hp ⟨hw, ht, by rw [hload], by rw [hload]; exact hempty⟩).elim
        · cases h

theorem canProvision_frame {d d' : IDPdevice} {m : Machine} {reason : String}
    (h : d.canProvision m = some (.error reason, d')) :
    d'.state = d.state ∧ d'.contents = d.contents := by
  unfold IDPdevice.canProvision at h
  split_ifs at h
  · cases h
    exact ⟨rfl, rfl⟩
  · cases h
    exact ⟨rfl, rfl⟩
  · cases h
    exact ⟨rfl, rfl⟩
  · obtain ⟨fits, -, h⟩ := Option.bind_eq_some_iff.1 h
    obtain ⟨e, he, h⟩ := Option.bind_eq_some_iff.1 h
    obtain ⟨hstate, himage, hpartitions⟩ := measureStorage_frame he
    have hsame : e.state = d.state ∧ e.contents = d.contents :=
      ⟨hstate, Prod.ext himage hpartitions⟩
    split_ifs at h
    · cases h
      exact hsame
    · cases h
      exact hsame
    · cases h

/-- A device that is not `Ready` is left alone; any other one is not `Ready` any more. -/
theorem startProvision_frame {d : IDPdevice} {env : Step → Bool} {reason : String} {r : Provision}
    (h : d.startProvision env reason = some r) :
    (d.state ≠ .ready ∧ r.device = d ∧ r.log = []) ∨
      (d.state = .ready ∧ r.device.state ≠ .ready) := by
  unfold IDPdevice.startProvision at h
  split_ifs at h with hs
  · cases h
    exact .inl ⟨hs, rfl, rfl⟩
  · obtain ⟨⟨ok, j⟩, -, h⟩ := Option.bind_eq_some_iff.1 h
    cases h
    refine .inr ⟨not_not.1 hs, ?_⟩
    cases ok <;> simp

/-! ### Runs -/

/-- The contents of a `Ready` device are those for which `canProvision` last succeeded. -/
def ReadyValidated (h : List DeviceEvent) (d : IDPdevice) : Prop :=
  d.state = .ready → lastValidated h = some d.contents

/-- No `Initialise` of the run comes to a description without partitions. -/
def NoPartless (reader : String → Except String Json.Doc) (h : List DeviceEvent) : Prop :=
  ∀ e ∈ h, ∀ text, e.input = .initialise text → ¬ Partless reader e.before text

theorem readyValidated_step {h : List DeviceEvent} {d d' : IDPdevice} {c : DeviceCall}
    {o : CallResult} (hd : ReadyValidated h d) (hc : d.call reader c = some (o, d'))
    (hp : ∀ text, c = .initialise text → ¬ Partless reader d text) :
    ReadyValidated (h ++ [⟨d, c, o, d'⟩]) d' := by
  intro hready
  rw [lastValidated_append]
  cases c with
  | initialise text =>
    change lastValidated h = _
    obtain ⟨-, hi⟩ | ⟨_, -, hi⟩ := initialise_of_call hc
    · obtain ⟨-, -, -, -, hstate⟩ := initialise_ok hi
      rw [hstate] at hready
      cases hready
    · obtain ⟨hstate, hcontents⟩ := initialise_frame hi (hp text rfl)
      rw [hcontents]
      exact hd (hstate ▸ hready)
  | canProvision m =>
    obtain ⟨⟨r, d₁⟩, hcan, hc⟩ := Option.bind_eq_some_iff.1 hc
    cases r with
    | ok =>
      cases hc
      obtain ⟨-, himage, hparts, -⟩ := ready_of_canProvision hcan
      change some d.contents = _
      rw [IDPdevice.contents, IDPdevice.contents, himage, hparts]
    | error reason =>
      cases hc
      obtain ⟨hstate, hcontents⟩ := canProvision_frame hcan
      rw [hcontents]
      exact hd (hstate ▸ hready)
  | startProvision env reason =>
    obtain ⟨r, hstart, hc⟩ := Option.bind_eq_some_iff.1 hc
    cases hc
    obtain ⟨hnot, hsame, -⟩ | ⟨-, hnot⟩ := startProvision_frame hstart
    · exact (hnot (hsame ▸ hready)).elim
    · exact (hnot hready).elim
  | endProvision =>
    cases hc
    cases hready

/-- In every run of a new device without a description that has no partitions, a `Ready` device
holds what has been checked, the disk is only touched for what has been checked, and an
`Initialise` that fails changes neither the state nor the contents. -/
theorem ready_contents_validated (reader : String → Except String Json.Doc)
    (sessionId dcap isize : ℕ) (calls : List DeviceCall)
    (hp : NoPartless reader (runs (IDPdevice.call reader) { sessionId, dcap, isize } calls))
    (earlier : List DeviceEvent) (e : DeviceEvent) (later : List DeviceEvent)
    (hrun : runs (IDPdevice.call reader) { sessionId, dcap, isize } calls =
      earlier ++ e :: later) :
    (e.after.state = .ready → lastValidated (earlier ++ [e]) = some e.after.contents) ∧
    (∀ env reason, e.input = .startProvision env reason → e.output.log ≠ [] →
      lastValidated earlier = some e.before.contents) ∧
    (∀ text, e.input = .initialise text → e.output.ok = false →
      e.after.state = e.before.state ∧ e.after.contents = e.before.contents) := by
  rw [hrun] at hp
  have hpre : NoPartless reader earlier := fun e' he' => hp e' (List.mem_append_left _ he')
  have hpe := hp e (by simp)
  -- The invariant is only claimed of histories without such a description.
  obtain ⟨hbefore, hcall⟩ :=
    @runs_invariant _ _ _ (IDPdevice.call reader)
      (fun h d => NoPartless reader h → ReadyValidated h d)
      (fun h s i o s' hs hi hnp => readyValidated_step
        (hs fun e' he' => hnp e' (List.mem_append_left _ he')) hi (hnp ⟨s, i, o, s'⟩ (by simp)))
      calls _ (fun _ hready => by cases hready) earlier e later hrun
  refine ⟨readyValidated_step (hbefore hpre) hcall hpe, ?_, ?_⟩
  · intro env reason hin hlog
    rw [hin] at hcall
    obtain ⟨r, hstart, hr⟩ := Option.bind_eq_some_iff.1 hcall
    obtain ⟨hout, -⟩ := Prod.mk.inj (Option.some.inj hr)
    rw [← hout] at hlog
    obtain ⟨-, -, hnil⟩ | ⟨hready, -⟩ := startProvision_frame hstart
    · exact (hlog hnil).elim
    · exact hbefore hpre hready
  · intro text hin hout
    rw [hin] at hcall
    obtain ⟨hok, -⟩ | ⟨_, -, hi⟩ := initialise_of_call hcall
    · rw [hok] at hout
      cases hout
    · exact initialise_frame hi (hpe text hin)

end

/-! ### A description without partitions -/

/-- A description whose map is empty. -/
def emptyDoc : Json.Doc where
  root := describe "1M" [] []
  sorted := by
    refine sorted_describe "1M" ?_ ?_
    · simp only [Json.Sorted, Json.SortedMembers]
      decide
    · simp only [Json.SortedElems]

def sampleReader (text : String) : Except String Json.Doc :=
  if text = "empty" then .ok emptyDoc else .ok cryptDoc

/-- A checked description is replaced by one without partitions, and the provisioning starts. -/
def uncheckedRun : List DeviceEvent :=
  runs (IDPdevice.call sampleReader) { sessionId := 1, dcap := 0, isize := 0 }
    [.initialise "json", .canProvision sampleMachine, .initialise "empty",
      .startProvision (fun _ => true) ""]

/-- The device stays `Ready` with contents that have not been checked, and a new partition table is
written for them. -/
theorem unchecked_contents_written :
    ¬ (∀ earlier e later, uncheckedRun = earlier ++ e :: later → e.after.state = .ready →
        lastValidated (earlier ++ [e]) = some e.after.contents) ∧
      (uncheckedRun.map fun e => (e.output.ok, e.after.partitions.length, e.output.log.length)) =
        [(true, 3, 0), (true, 3, 0), (false, 0, 0), (true, 0, 4)] := by
  have hmap : (uncheckedRun.map fun e =>
      (e.output.ok, e.after.partitions.length, e.output.log.length)) =
        [(true, 3, 0), (true, 3, 0), (false, 0, 0), (true, 0, 4)] := by decide +kernel
  refine ⟨fun hall => ?_, hmap⟩
  have hstate : (uncheckedRun.map (·.after.state))[2]? = some .ready := by decide +kernel
  have hlast : (lastValidated (uncheckedRun.take 3)).map (·.2.length) = some 3 := by decide +kernel
  generalize uncheckedRun = h at hmap hstate hlast hall
  obtain ⟨e₀, h, rfl, -, hmap⟩ := List.map_eq_cons_iff.1 hmap
  obtain ⟨e₁, h, rfl, -, hmap⟩ := List.map_eq_cons_iff.1 hmap
  obtain ⟨e₂, h, rfl, he₂, hmap⟩ := List.map_eq_cons_iff.1 hmap
  have hready : e₂.after.state = .ready := by simpa using hstate
  have := hall [e₀, e₁] e₂ h rfl hready
  simp only [List.take_succ_cons, List.take_zero] at hlast
  simp only [List.cons_append, List.nil_append] at this
  rw [this] at hlast
  simp only [Prod.mk.injEq] at he₂
  simp [IDPdevice.contents, he₂.2.1] at hlast

/-- A device that is initialised and checked is `Ready` with what has been checked. -/
theorem ready_contents_validated_cryptDoc :
    ∃ earlier e later,
      runs (IDPdevice.call sampleReader) { sessionId := 1, dcap := 0, isize := 0 }
        [.initialise "json", .canProvision sampleMachine] = earlier ++ e :: later ∧
      e.after.state = .ready ∧ lastValidated (earlier ++ [e]) = some e.after.contents := by
  have hok : ((IDPdevice.call sampleReader { sessionId := 1, dcap := 0, isize := 0 }
      (.initialise "json")).bind fun r => (r.2.call sampleReader (.canProvision sampleMachine))).map
        (fun r => r.2.state) = some .ready := by decide +kernel
  have hload : ((({} : IDPparser).loadJSON sampleReader "json").2.partitions).length = 3 := by
    decide +kernel
  obtain ⟨r₂, hr₂, hstate⟩ := Option.map_eq_some_iff.1 hok
  obtain ⟨r₁, hr₁, hr₂⟩ := Option.bind_eq_some_iff.1 hr₂
  have hrun : runs (IDPdevice.call sampleReader) { sessionId := 1, dcap := 0, isize := 0 }
      [.initialise "json", .canProvision sampleMachine] =
        [⟨{ sessionId := 1, dcap := 0, isize := 0 }, .initialise "json", r₁.1, r₁.2⟩] ++
          ⟨r₁.2, .canProvision sampleMachine, r₂.1, r₂.2⟩ :: [] := by
    rw [runs, hr₁]
    simp only [runs, hr₂]
    rfl
  refine ⟨_, _, _, hrun, hstate, ?_⟩
  refine (ready_contents_validated sampleReader 1 0 0 _ ?_ _ _ _ hrun).1 hstate
  rw [hrun]
  intro e he text hin hp
  simp only [List.singleton_append, List.mem_cons, List.not_mem_nil, or_false] at he
  obtain rfl | rfl := he
  · cases hin
    have := hp.2.2.2
    simp only [this] at hload
    cases hload
  · cases hin

end RpiFastbootd
