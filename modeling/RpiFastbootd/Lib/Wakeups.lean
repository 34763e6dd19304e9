import Mathlib.Algebra.Order.Group.Nat
import Mathlib.Data.List.Count
import Mathlib.Tactic.Common

/-!
# Threads that sleep on a condition variable

Under a mutex, threads take units of something, and sleep on a condition variable while there are
none.  A thread that adds a unit notifies one sleeper: before it leaves the mutex, or some time
after it.  A sleeper may also wake up for no reason.

No wake-up is lost (`Gate.Covered`): as long as a thread sleeps, for each unit there is a thread that
is about to look, or one that has still to notify.
-/

namespace RpiFastbootd

/-- The units that there are, the threads that sleep and those that are about to look, and the
notifications that are still to be made. -/
structure Gate where
  units : ℕ
  asleep : ℕ
  alert : ℕ
  pending : ℕ

namespace Gate

def wakeOne (g : Gate) : Gate :=
  if g.asleep = 0 then g else { g with asleep := g.asleep - 1, alert := g.alert + 1 }

inductive Move : Gate → Gate → Prop
  | stay (g : Gate) : Move g g
  | arrive (g : Gate) : Move g { g with alert := g.alert + 1 }
  | sleep {g : Gate} (hunits : g.units = 0) (halert : 0 < g.alert) :
    Move g { g with asleep := g.asleep + 1, alert := g.alert - 1 }
  | leave {g : Gate} (hunits : g.units = 0) (halert : 0 < g.alert) :
    Move g { g with alert := g.alert - 1 }
  | take {g : Gate} (hunits : 0 < g.units) (halert : 0 < g.alert) :
    Move g { g with units := g.units - 1, alert := g.alert - 1 }
  | give (g : Gate) : Move g { g with units := g.units + 1 }.wakeOne
  | giveFirst (g : Gate) : Move g { g with units := g.units + 1, pending := g.pending + 1 }
  | notify {g : Gate} (hpending : 0 < g.pending) : Move g { g with pending := g.pending - 1 }.wakeOne
  | wake {g : Gate} (hasleep : 0 < g.asleep) :
    Move g { g with asleep := g.asleep - 1, alert := g.alert + 1 }
  | wakeAll (g : Gate) : Move g { g with asleep := 0, alert := g.alert + g.asleep }

def Covered (g : Gate) : Prop := 0 < g.asleep → g.units ≤ g.alert + g.pending

theorem wakeOne_covered {g : Gate} (h : 0 < g.asleep → g.units ≤ g.alert + g.pending + 1) :
    g.wakeOne.Covered := by
  unfold wakeOne
  split_ifs with hasleep
  · exact fun hpos => absurd hasleep (by omega)
  · intro _
    have hunits := h (by omega)
    show g.units ≤ g.alert + 1 + g.pending
    omega

theorem Covered.move {g g' : Gate} (h : g.Covered) (hmove : Move g g') : g'.Covered := by
  unfold Covered at h
  cases hmove with
  | stay => exact h
  | give =>
    refine wakeOne_covered fun hasleep => ?_
    have hunits := h hasleep
    show g.units + 1 ≤ g.alert + g.pending + 1
    omega
  | notify hpending =>
    refine wakeOne_covered fun hasleep => ?_
    have hunits := h hasleep
    show g.units ≤ g.alert + (g.pending - 1) + 1
    omega
  | sleep hunits halert =>
    intro _
    show g.units ≤ _
    omega
  | leave hunits halert =>
    intro _
    show g.units ≤ _
    omega
  | arrive =>
    intro hasleep
    have hunits := h hasleep
    show g.units ≤ g.alert + 1 + g.pending
    omega
  | take hpos halert =>
    intro hasleep
    have hunits := h hasleep
    show g.units - 1 ≤ g.alert - 1 + g.pending
    omega
  | giveFirst =>
    intro hasleep
    have hunits := h hasleep
    show g.units + 1 ≤ g.alert + (g.pending + 1)
    omega
  | wake hasleep =>
    intro _
    have hunits := h hasleep
    show g.units ≤ g.alert + 1 + g.pending
    omega
  | wakeAll => exact fun hasleep => absurd hasleep (lt_irrefl 0)

end Gate

/-! ### Threads -/

/-- How a thread stands to a condition variable. -/
inductive Phase
  | away
  | alert
  | asleep
  deriving DecidableEq, Repr

/-- Threads of a type, and what one that sleeps becomes when it is woken. -/
structure Sleepers (α : Type) where
  phase : α → Phase
  wake : α → α
  phase_wake : ∀ a, phase a = .asleep → phase (wake a) = .alert

section

variable {α : Type}

/-- How many threads are in a phase. -/
def Sleepers.count (S : Sleepers α) (q : Phase) (l : List α) : ℕ := l.countP fun a => S.phase a = q

/-- `notify_one`. -/
inductive NotifyOne (S : Sleepers α) : List α → List α → Prop
  | one {l₁ l₂ : List α} {a : α} (h : S.phase a = .asleep) :
    NotifyOne S (l₁ ++ a :: l₂) (l₁ ++ S.wake a :: l₂)
  | nobody {l : List α} (h : ∀ a ∈ l, S.phase a ≠ .asleep) : NotifyOne S l l

/-- `notify_all`. -/
def notifyAll (S : Sleepers α) (l : List α) : List α :=
  l.map fun a => if S.phase a = .asleep then S.wake a else a

variable {S : Sleepers α} {l l' l₁ l₂ : List α} {a b : α}

/-- One of the threads changes. -/
theorem Sleepers.count_split (q : Phase) :
    S.count q (l₁ ++ a :: l₂) = S.count q (l₁ ++ l₂) + if S.phase a = q then 1 else 0 := by
  simp only [count, List.countP_append, List.countP_cons, decide_eq_true_eq]
  omega

theorem Sleepers.count_eq_zero {q : Phase} : S.count q l = 0 ↔ ∀ a ∈ l, S.phase a ≠ q := by
  simp only [count, List.countP_eq_zero, decide_eq_true_eq, ne_eq]

theorem exists_notifyOne (S : Sleepers α) (l : List α) : ∃ l', NotifyOne S l l' := by
  by_cases hasleep : ∃ a ∈ l, S.phase a = .asleep
  · obtain ⟨a, ha, hphase⟩ := hasleep
    obtain ⟨l₁, l₂, rfl⟩ := List.append_of_mem ha
    exact ⟨_, .one hphase⟩
  · exact ⟨l, .nobody fun a ha hphase => hasleep ⟨a, ha, hphase⟩⟩

/-- What a notification does to the numbers of the threads. -/
theorem NotifyOne.wakeOne (h : NotifyOne S l l') (units pending : ℕ) :
    (⟨units, S.count .asleep l', S.count .alert l', pending⟩ : Gate) =
      (⟨units, S.count .asleep l, S.count .alert l, pending⟩ : Gate).wakeOne := by
  cases h with
  | one ha =>
    have hwake := S.phase_wake _ ha
    simp only [Gate.wakeOne, Sleepers.count_split, ha, hwake]
    simp
  | nobody hnone =>
    rw [Gate.wakeOne, if_pos (Sleepers.count_eq_zero.2 hnone)]

theorem count_notifyAll (S : Sleepers α) (l : List α) :
    S.count .asleep (notifyAll S l) = 0 ∧
      S.count .alert (notifyAll S l) = S.count .alert l + S.count .asleep l := by
  induction l with
  | nil => exact ⟨rfl, rfl⟩
  | cons a l ih =>
    have hcons (q : Phase) (b : α) (l : List α) :
        S.count q (b :: l) = S.count q l + if S.phase b = q then 1 else 0 := by
      rw [← List.nil_append (b :: l), Sleepers.count_split, List.nil_append]
    change S.count .asleep ((if S.phase a = .asleep then S.wake a else a) :: notifyAll S l) = 0 ∧
      S.count .alert ((if S.phase a = .asleep then S.wake a else a) :: notifyAll S l) = _
    rw [hcons, hcons, hcons, hcons, ih.1, ih.2]
    cases hphase : S.phase a with
    | asleep =>
      simp [S.phase_wake a hphase]
      omega
    | alert =>
      simp [hphase]
      omega
    | away => simp [hphase]

/-- What does not depend on the sleep of a thread stays as it is. -/
theorem NotifyOne.map_eq {β : Type} {f : α → β} (h : NotifyOne S l l')
    (hf : ∀ a, S.phase a = .asleep → f (S.wake a) = f a) : l'.map f = l.map f := by
  cases h with
  | one ha => simp [hf _ ha]
  | nobody => rfl

theorem map_notifyAll {β : Type} {f : α → β} (hf : ∀ a, S.phase a = .asleep → f (S.wake a) = f a)
    (l : List α) : (notifyAll S l).map f = l.map f := by
  rw [notifyAll, List.map_map]
  refine List.map_congr_left fun a _ => ?_
  rw [Function.comp_apply]
  split_ifs with ha
  · exact hf a ha
  · rfl

theorem NotifyOne.forall_mem {P : α → Prop} (h : NotifyOne S l l') (hl : ∀ a ∈ l, P a)
    (hwake : ∀ a, S.phase a = .asleep → P (S.wake a)) : ∀ a ∈ l', P a := by
  cases h with
  | one ha =>
    rw [List.forall_mem_append, List.forall_mem_cons] at hl ⊢
    exact ⟨hl.1, hwake _ ha, hl.2.2⟩
  | nobody => exact hl

end

end RpiFastbootd
