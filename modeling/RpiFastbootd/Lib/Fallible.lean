import Mathlib.Tactic.Common

/-!
# Programs that change a state and may fail

A failure does not undo what the program has done to the state.  `Ends m s Q` says how a program
ends when it is started in `s`; the rules take it apart along the sequence.
-/

namespace RpiFastbootd

/-- A program over states `σ` that gives an `α` or fails with an `ε`. -/
def FailM (ε σ α : Type) := σ → Except ε α × σ

section

variable {ε σ α β : Type}

namespace FailM

instance : Monad (FailM ε σ) where
  pure a := fun s => (.ok a, s)
  bind m f := fun s => match m s with
    | (.ok a, s) => f a s
    | (.error e, s) => (.error e, s)

def fail (e : ε) : FailM ε σ α := fun s => (.error e, s)

end FailM

/-- Started in `s`, the program ends with a result and a state that `Q` accepts. -/
def Ends (m : FailM ε σ α) (s : σ) (Q : Except ε α → σ → Prop) : Prop := Q (m s).1 (m s).2

variable {m : FailM ε σ α} {s : σ} {P Q : Except ε α → σ → Prop}

theorem ends_pure {a : α} (h : Q (.ok a) s) : Ends (pure a : FailM ε σ α) s Q := h

theorem ends_fail {e : ε} (h : Q (.error e) s) : Ends (FailM.fail e : FailM ε σ α) s Q := h

theorem Ends.mono (h : Ends m s P) (hpq : ∀ r s', P r s' → Q r s') : Ends m s Q := hpq _ _ h

theorem bind_of_ok {f : α → FailM ε σ β} {a : α} {s' : σ} (h : m s = (.ok a, s')) :
    (m >>= f) s = f a s' := by
  change (match m s with
    | (.ok a, s) => f a s
    | (.error e, s) => (.error e, s)) = _
  rw [h]

theorem bind_of_error {f : α → FailM ε σ β} {e : ε} {s' : σ} (h : m s = (.error e, s')) :
    (m >>= f) s = (.error e, s') := by
  change (match m s with
    | (.ok a, s) => f a s
    | (.error e, s) => (.error e, s)) = _
  rw [h]

theorem Ends.bind {f : α → FailM ε σ β} {R : Except ε β → σ → Prop} (hm : Ends m s P)
    (hok : ∀ a s', P (.ok a) s' → Ends (f a) s' R)
    (herr : ∀ e s', P (.error e) s' → R (.error e) s') : Ends (m >>= f) s R := by
  unfold Ends at hm ⊢
  rcases h : m s with ⟨e | a, s'⟩
  · rw [h] at hm
    rw [bind_of_error h]
    exact herr e s' hm
  · rw [h] at hm
    rw [bind_of_ok h]
    exact hok a s' hm

end

end RpiFastbootd
