import Mathlib.Tactic.Common

/-!
# Runs of a machine

A machine takes an input in a state, gives an output and goes to a next state, or stops.  A run
lists the inputs it has taken, each with its output and the states around it.  An invariant may speak
about the state and about all that has happened so far; `runs_invariant` derives it for every point
of a run from the single steps.
-/

namespace RpiFastbootd

/-- An input with the state that took it, the output, and the state it led to. -/
structure Event (σ ι ο : Type) where
  before : σ
  input : ι
  output : ο
  after : σ

section

variable {σ ι ο : Type} (step : σ → ι → Option (ο × σ))

/-- The events of the machine on `inputs`; it takes no input after it has stopped. -/
def runs : σ → List ι → List (Event σ ι ο)
  | _, [] => []
  | s, i :: inputs =>
    match step s i with
    | none => []
    | some (o, s') => ⟨s, i, o, s'⟩ :: runs s' inputs

variable {step}

theorem runs_inputs_prefix (inputs : List ι) (s : σ) :
    (runs step s inputs).map (·.input) <+: inputs := by
  induction inputs generalizing s with
  | nil => exact List.nil_prefix
  | cons i inputs ih =>
    rw [runs]
    split
    · exact List.nil_prefix
    next o s' _ => exact List.cons_prefix_cons.2 ⟨rfl, ih s'⟩

theorem input_mem_of_mem_runs {inputs : List ι} {s : σ} {e : Event σ ι ο}
    (he : e ∈ runs step s inputs) : e.input ∈ inputs := by
  have htaken : (runs step s inputs).map (·.input) <+: inputs := runs_inputs_prefix inputs s
  exact htaken.subset (List.mem_map_of_mem he)

/-- What holds at the start and is kept by every step that meets `P` holds at every event of a run
whose steps all meet `P`. -/
theorem runs_invariant_of {P : Event σ ι ο → Prop} {I : List (Event σ ι ο) → σ → Prop}
    (hstep : ∀ h s i o s', I h s → step s i = some (o, s') → P ⟨s, i, o, s'⟩ →
      I (h ++ [⟨s, i, o, s'⟩]) s')
    {inputs : List ι} {s : σ} {h₀ : List (Event σ ι ο)} (hs : I h₀ s)
    (hP : ∀ e ∈ runs step s inputs, P e)
    {h : List (Event σ ι ο)} {e : Event σ ι ο} {rest : List (Event σ ι ο)}
    (hrun : runs step s inputs = h ++ e :: rest) :
    I (h₀ ++ h) e.before ∧ step e.before e.input = some (e.output, e.after) := by
  induction inputs generalizing s h₀ h with
  | nil => simp [runs] at hrun
  | cons i inputs ih =>
    rw [runs] at hrun hP
    split at hrun
    · simp at hrun
    next o s' hi =>
      rw [hi] at hP
      obtain ⟨hPe, hP⟩ := List.forall_mem_cons.1 hP
      cases h with
      | nil =>
        obtain ⟨rfl, -⟩ := List.cons.inj hrun
        exact ⟨by rwa [List.append_nil], hi⟩
      | cons x h =>
        obtain ⟨rfl, hrest⟩ := List.cons.inj hrun
        obtain ⟨hI, hlast⟩ := ih (hstep h₀ s i o s' hs hi hPe) hP hrest
        rw [List.append_assoc, List.singleton_append] at hI
        exact ⟨hI, hlast⟩

/-- What holds at the start and is kept by every step holds at every event of a run. -/
theorem runs_invariant {I : List (Event σ ι ο) → σ → Prop}
    (hstep : ∀ h s i o s', I h s → step s i = some (o, s') → I (h ++ [⟨s, i, o, s'⟩]) s')
    {inputs : List ι} {s : σ} (hs : I [] s)
    {h : List (Event σ ι ο)} {e : Event σ ι ο} {rest : List (Event σ ι ο)}
    (hrun : runs step s inputs = h ++ e :: rest) :
    I h e.before ∧ step e.before e.input = some (e.output, e.after) :=
  runs_invariant_of (fun h s i o s' hI hi _ => hstep h s i o s' hI hi) hs
    (fun _ _ => trivial) hrun

end

end RpiFastbootd
