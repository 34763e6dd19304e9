import Mathlib.Tactic.Common

/-!
# Programs that call their surroundings

A program has a state of its own, makes calls, each of which is answered, and ends with a value or
stops.  A monitor watches the calls: it says which ones a program may make and how what it
remembers follows them.  `Meets` is the weakest precondition of a program under a monitor, taken
apart by the rules along the program.  A trace lists the calls of a program with their answers, to
its end or cut off anywhere; `Meets.sound` carries the monitor over to the traces.
-/

namespace RpiFastbootd

/-- A program with a state `σ` and calls `c : C` that are answered by an `A c`; it gives an `α` or
stops with an `ε`. -/
inductive Prog (σ C : Type) (A : C → Type) (ε α : Type)
  | ret (a : α)
  | stop (e : ε)
  | get (k : σ → Prog σ C A ε α)
  | put (s : σ) (k : Prog σ C A ε α)
  | call (c : C) (k : A c → Prog σ C A ε α)

section

variable {σ C : Type} {A : C → Type} {ε ε' α β γ ω : Type}

namespace Prog

def bind : Prog σ C A ε α → (α → Prog σ C A ε β) → Prog σ C A ε β
  | ret a, f => f a
  | stop e, _ => stop e
  | get k, f => get fun s => (k s).bind f
  | put s k, f => put s (k.bind f)
  | call c k, f => call c fun a => (k a).bind f

instance : Monad (Prog σ C A ε) where
  pure := ret
  bind := bind

theorem bind_pure (m : Prog σ C A ε α) : m.bind ret = m := by
  induction m with
  | ret a => rfl
  | stop e => rfl
  | get k ih => exact congrArg get (funext ih)
  | put s k ih => exact congrArg (put s) ih
  | call c k ih => exact congrArg (call c) (funext ih)

theorem bind_assoc {δ : Type} (m : Prog σ C A ε α) (f : α → Prog σ C A ε β)
    (g : β → Prog σ C A ε δ) : (m.bind f).bind g = m.bind fun a => (f a).bind g := by
  induction m with
  | ret a => rfl
  | stop e => rfl
  | get k ih => exact congrArg get (funext ih)
  | put s k ih => exact congrArg (put s) ih
  | call c k ih => exact congrArg (call c) (funext ih)

instance : LawfulMonad (Prog σ C A ε) :=
  LawfulMonad.mk' _ bind_pure (fun _ _ => rfl) bind_assoc

@[simp]
theorem stop_bind (e : ε) (f : α → Prog σ C A ε β) : (stop e : Prog σ C A ε α) >>= f = stop e := rfl

@[simp]
theorem ite_bind (c : Prop) [Decidable c] (m n : Prog σ C A ε α) (f : α → Prog σ C A ε β) :
    (if c then m else n) >>= f = if c then m >>= f else n >>= f := by
  split_ifs <;> rfl

/-- Make one call. -/
def ask (c : C) : Prog σ C A ε (A c) := call c ret

/-- The state. -/
def state : Prog σ C A ε σ := get ret

/-- Change the state. -/
def update (f : σ → σ) : Prog σ C A ε Unit := get fun s => put (f s) (ret ())

/-- Go on with `f` where the program stops. -/
def rescue : Prog σ C A ε α → (ε → Prog σ C A ε' α) → Prog σ C A ε' α
  | ret a, _ => ret a
  | stop e, f => f e
  | get k, f => get fun s => (k s).rescue f
  | put s k, f => put s (k.rescue f)
  | call c k, f => call c fun a => (k a).rescue f

/-- Run the program against surroundings that keep an `ω`: its calls with their answers, and its
end. -/
def run (answer : ω → (c : C) → A c × ω) :
    Prog σ C A ε α → σ → ω → List ((c : C) × A c) × Except ε α
  | ret a, _, _ => ([], .ok a)
  | stop e, _, _ => ([], .error e)
  | get k, s, w => (k s).run answer s w
  | put s k, _, w => k.run answer s w
  | call c k, s, w =>
    let (a, w) := answer w c
    let (t, r) := (k a).run answer s w
    (⟨c, a⟩ :: t, r)

end Prog

/-- Which calls a program may make, and how what is remembered follows them. -/
structure Monitor (C : Type) (A : C → Type) (γ : Type) where
  safe : γ → C → Prop
  next : γ → (c : C) → A c → γ

/-- Started in `s` with `g` remembered, the program makes safe calls only and ends as `Q` says,
whatever answers it gets. -/
def Meets (K : Monitor C A γ) : Prog σ C A ε α → σ → γ → (Except ε α → σ → γ → Prop) → Prop
  | .ret a, s, g, Q => Q (.ok a) s g
  | .stop e, s, g, Q => Q (.error e) s g
  | .get k, s, g, Q => Meets K (k s) s g Q
  | .put s k, _, g, Q => Meets K k s g Q
  | .call c k, s, g, Q => K.safe g c ∧ ∀ a, Meets K (k a) s (K.next g c a) Q

variable {K : Monitor C A γ} {m : Prog σ C A ε α} {s : σ} {g : γ}
  {P Q : Except ε α → σ → γ → Prop}

@[simp]
theorem meets_pure {a : α} : Meets K (pure a : Prog σ C A ε α) s g Q ↔ Q (.ok a) s g := Iff.rfl

@[simp]
theorem meets_stop {e : ε} : Meets K (.stop e : Prog σ C A ε α) s g Q ↔ Q (.error e) s g := Iff.rfl

@[simp]
theorem meets_ask {c : C} {Q : Except ε (A c) → σ → γ → Prop} :
    Meets K (.ask c) s g Q ↔ K.safe g c ∧ ∀ a, Q (.ok a) s (K.next g c a) := Iff.rfl

@[simp]
theorem meets_state {Q : Except ε σ → σ → γ → Prop} :
    Meets K .state s g Q ↔ Q (.ok s) s g := Iff.rfl

@[simp]
theorem meets_update {f : σ → σ} {Q : Except ε Unit → σ → γ → Prop} :
    Meets K (.update f) s g Q ↔ Q (.ok ()) (f s) g := Iff.rfl

theorem Meets.mono (h : Meets K m s g P) (hpq : ∀ r s' g', P r s' g' → Q r s' g') :
    Meets K m s g Q := by
  induction m generalizing s g with
  | ret a => exact hpq _ _ _ h
  | stop e => exact hpq _ _ _ h
  | get k ih => exact ih s h
  | put s' k ih => exact ih h
  | call c k ih => exact ⟨h.1, fun a => ih a (h.2 a)⟩

@[simp]
theorem meets_bind {f : α → Prog σ C A ε β} {R : Except ε β → σ → γ → Prop} :
    Meets K (m >>= f) s g R ↔ Meets K m s g fun r s' g' =>
      match r with
      | .ok a => Meets K (f a) s' g' R
      | .error e => R (.error e) s' g' := by
  induction m generalizing s g with
  | ret a => exact Iff.rfl
  | stop e => exact Iff.rfl
  | get k ih => exact ih s
  | put s' k ih => exact ih
  | call c k ih => exact and_congr_right fun _ => forall_congr' fun a => ih a

theorem meets_rescue {f : ε → Prog σ C A ε' α} {R : Except ε' α → σ → γ → Prop} :
    Meets K (m.rescue f) s g R ↔ Meets K m s g fun r s' g' =>
      match r with
      | .ok a => R (.ok a) s' g'
      | .error e => Meets K (f e) s' g' R := by
  induction m generalizing s g with
  | ret a => exact Iff.rfl
  | stop e => exact Iff.rfl
  | get k ih => exact ih s
  | put s' k ih => exact ih
  | call c k ih => exact and_congr_right fun _ => forall_congr' fun a => ih a

/-! ### Traces -/

/-- The calls of a program with their answers, and its end unless the trace is cut off before. -/
inductive Trace : Prog σ C A ε α → σ → List ((c : C) × A c) → Option (Except ε α) → Prop
  | cut (m : Prog σ C A ε α) (s : σ) : Trace m s [] none
  | ret (a : α) (s : σ) : Trace (.ret a) s [] (some (.ok a))
  | stop (e : ε) (s : σ) : Trace (.stop e) s [] (some (.error e))
  | get {k : σ → Prog σ C A ε α} {s : σ} {t : List ((c : C) × A c)} {r : Option (Except ε α)}
      (h : Trace (k s) s t r) : Trace (.get k) s t r
  | put {s s' : σ} {k : Prog σ C A ε α} {t : List ((c : C) × A c)} {r : Option (Except ε α)}
      (h : Trace k s' t r) : Trace (.put s' k) s t r
  | call {c : C} {k : A c → Prog σ C A ε α} {a : A c} {s : σ} {t : List ((c : C) × A c)}
      {r : Option (Except ε α)} (h : Trace (k a) s t r) : Trace (.call c k) s (⟨c, a⟩ :: t) r

theorem trace_ask_bind {c : C} {a : A c} {f : A c → Prog σ C A ε α} {s : σ}
    {t : List ((c : C) × A c)} {r : Option (Except ε α)} :
    Trace (Prog.ask c >>= f) s (⟨c, a⟩ :: t) r ↔ Trace (f a) s t r := by
  constructor
  · intro h
    cases h with
    | call h => exact h
  · exact Trace.call

theorem trace_run (answer : ω → (c : C) → A c × ω) (m : Prog σ C A ε α) (s : σ) (w : ω) :
    Trace m s (m.run answer s w).1 (some (m.run answer s w).2) := by
  induction m generalizing s w with
  | ret a => exact .ret a s
  | stop e => exact .stop e s
  | get k ih => exact .get (ih s s w)
  | put s' k ih => exact .put (ih s' w)
  | call c k ih => exact .call (ih (answer w c).1 s (answer w c).2)

namespace Monitor

variable (K)

/-- What is remembered after a trace. -/
def after (g : γ) (t : List ((c : C) × A c)) : γ := t.foldl (fun g e => K.next g e.1 e.2) g

@[simp]
theorem after_nil (g : γ) : K.after g [] = g := rfl

@[simp]
theorem after_cons (g : γ) (e : (c : C) × A c) (t : List ((c : C) × A c)) :
    K.after g (e :: t) = K.after (K.next g e.1 e.2) t := rfl

@[simp]
theorem after_append (g : γ) (t u : List ((c : C) × A c)) :
    K.after g (t ++ u) = K.after (K.after g t) u := List.foldl_append

end Monitor

/-- Every call of a trace is safe with what is remembered before it, and the end is as the program
meets it. -/
theorem Meets.sound {t : List ((c : C) × A c)} {r : Option (Except ε α)} (h : Meets K m s g Q)
    (ht : Trace m s t r) :
    (∀ t₁ e t₂, t = t₁ ++ e :: t₂ → K.safe (K.after g t₁) e.1) ∧
      ∀ x, r = some x → ∃ s', Q x s' (K.after g t) := by
  induction ht generalizing g with
  | cut m s => exact ⟨fun t₁ e t₂ h => by simp at h, fun x hx => by cases hx⟩
  | ret a s => exact ⟨fun t₁ e t₂ h => by simp at h, fun x hx => by cases hx; exact ⟨s, h⟩⟩
  | stop e s => exact ⟨fun t₁ e t₂ h => by simp at h, fun x hx => by cases hx; exact ⟨s, h⟩⟩
  | get _ ih => exact ih h
  | put _ ih => exact ih h
  | @call c k a s t r _ ih =>
    obtain ⟨hsafe, hrest⟩ := ih (h.2 a)
    refine ⟨fun t₁ e t₂ heq => ?_, hrest⟩
    cases t₁ with
    | nil =>
      obtain ⟨rfl, -⟩ := List.cons.inj heq
      exact h.1
    | cons e' t₁ =>
      obtain ⟨rfl, htail⟩ := List.cons.inj heq
      exact hsafe t₁ e t₂ htail

end

end RpiFastbootd
