import Mathlib.Tactic.Common

/-!
# Outcomes of fallible computations

When a computation in `Except` or `Option` succeeds, read off its shape: a sequence does when both
parts do.  `Yields` is about computations that can fail in one way only.
-/

namespace RpiFastbootd

section

variable {ε α β : Type}

@[simp] theorem ok_bind {a : α} {f : α → Except ε β} : (Except.ok a >>= f) = f a := rfl

@[simp] theorem error_bind {e : ε} {f : α → Except ε β} : (Except.error e >>= f) = .error e := rfl

@[simp] theorem bind_eq_ok_iff {x : Except ε α} {f : α → Except ε β} {b : β} :
    (x >>= f) = .ok b ↔ ∃ a, x = .ok a ∧ f a = .ok b := by
  cases x <;> simp [bind, Except.bind]

@[simp] theorem pure_eq_ok_iff {a b : α} : (pure a : Except ε α) = .ok b ↔ a = b := by
  simp [pure, Except.pure]

@[simp] theorem throw_ne_ok {e : ε} {a : α} : (throw e : Except ε α) ≠ .ok a := by
  simp [throw, throwThe, MonadExceptOf.throw]

@[simp] theorem map_eq_ok_iff {x : Except ε α} {f : α → β} {b : β} :
    (f <$> x) = .ok b ↔ ∃ a, x = .ok a ∧ f a = b := by
  cases x <;> simp [Functor.map, Except.map]

@[simp] theorem toOption_eq_some_iff {x : Except ε α} {a : α} :
    x.toOption = some a ↔ x = .ok a := by
  cases x <;> simp [Except.toOption]

theorem mapM_eq_ok_iff {f : α → Except ε β} {R : α → β → Prop}
    (h : ∀ a b, f a = .ok b ↔ R a b) {as : List α} {bs : List β} :
    as.mapM f = .ok bs ↔ List.Forall₂ R as bs := by
  induction as generalizing bs with
  | nil =>
    simp only [List.mapM_nil, pure_eq_ok_iff]
    exact ⟨fun h => h ▸ .nil, fun h => by cases h; rfl⟩
  | cons a as ih =>
    simp only [List.mapM_cons, bind_eq_ok_iff, pure_eq_ok_iff, ih, h]
    constructor
    · rintro ⟨b, hb, rest, hrest, rfl⟩
      exact .cons hb hrest
    · intro h
      cases h with
      | cons hb hrest => exact ⟨_, hb, _, hrest, rfl⟩

theorem mapM_eq_some_iff {f : α → Option β} {as : List α} {bs : List β} :
    as.mapM f = some bs ↔ List.Forall₂ (fun a b => f a = some b) as bs := by
  induction as generalizing bs with
  | nil =>
    simp only [List.mapM_nil, Option.pure_def, Option.some.injEq]
    exact ⟨fun h => h ▸ .nil, fun h => by cases h; rfl⟩
  | cons a as ih =>
    simp only [List.mapM_cons, Option.bind_eq_bind, Option.bind_eq_some_iff, Option.pure_def,
      Option.some.injEq, ih]
    constructor
    · rintro ⟨b, hb, rest, hrest, rfl⟩
      exact .cons hb hrest
    · intro h
      cases h with
      | cons hb hrest => exact ⟨_, hb, _, hrest, rfl⟩

theorem exists_forall₂_iff {R : α → β → Prop} {as : List α} :
    (∃ bs, List.Forall₂ R as bs) ↔ ∀ a ∈ as, ∃ b, R a b := by
  induction as with
  | nil => exact ⟨fun _ a ha => (by cases ha), fun _ => ⟨[], .nil⟩⟩
  | cons a as ih =>
    rw [List.forall_mem_cons, ← ih]
    constructor
    · rintro ⟨_, hbs⟩
      cases hbs with
      | cons hb hbs => exact ⟨⟨_, hb⟩, ⟨_, hbs⟩⟩
    · rintro ⟨⟨b, hb⟩, ⟨bs, hbs⟩⟩
      exact ⟨b :: bs, .cons hb hbs⟩

theorem append_eq_some_iff {s t : Option (List α)} {l : List α} :
    (do return (← s) ++ (← t)) = some l ↔ ∃ a b, s = some a ∧ t = some b ∧ a ++ b = l := by
  cases s <;> cases t <;> simp

/-- The computation fails with `e`, or its result meets `Q`. -/
def Yields (e : ε) (x : Except ε α) (Q : α → Prop) : Prop := x = .error e ∨ ∃ a, x = .ok a ∧ Q a

variable {e : ε} {x : Except ε α} {Q : α → Prop}

theorem yields_error : Yields e (.error e) Q := .inl rfl

theorem yields_ok {a : α} (h : Q a) : Yields e (.ok a) Q := .inr ⟨a, rfl, h⟩

theorem yields_check {c : Prop} [Decidable c] (h : ¬ c → Yields e x Q) :
    Yields e (if c then throw e else x) Q := by
  by_cases hc : c
  · rw [if_pos hc]
    exact yields_error
  · rw [if_neg hc]
    exact h hc

theorem Yields.bind {f : α → Except ε β} {R : β → Prop} (h : Yields e x Q)
    (hf : ∀ a, Q a → Yields e (f a) R) : Yields e (x >>= f) R := by
  obtain rfl | ⟨a, rfl, ha⟩ := h
  · exact yields_error
  · exact hf a ha

theorem Yields.of_ok {a : α} (h : Yields e x Q) (hok : x = .ok a) : Q a := by
  obtain rfl | ⟨b, rfl, hb⟩ := h
  · cases hok
  · cases hok
    exact hb

/-! ### Failing alike -/

/-- Two computations with results in `R`, or with the same failure up to what it leaves behind. -/
inductive Alike {σ : Type} (R : α → β → Prop) : Except (ε × σ) α → Except (ε × σ) β → Prop
  | ok {a : α} {b : β} (h : R a b) : Alike R (.ok a) (.ok b)
  | error (e : ε) (s t : σ) : Alike R (.error (e, s)) (.error (e, t))

theorem Alike.bind {σ γ δ : Type} {R : α → β → Prop} {S : γ → δ → Prop} {x : Except (ε × σ) α}
    {y : Except (ε × σ) β} {f : α → Except (ε × σ) γ} {g : β → Except (ε × σ) δ}
    (h : Alike R x y) (hf : ∀ a b, R a b → Alike S (f a) (g b)) :
    Alike S (x >>= f) (y >>= g) := by
  cases h with
  | ok h => exact hf _ _ h
  | error e s t => exact .error e s t

theorem Alike.error_iff {σ : Type} {R : α → β → Prop} {x : Except (ε × σ) α}
    {y : Except (ε × σ) β} (h : Alike R x y) (e : ε) :
    (∃ s, x = .error (e, s)) ↔ ∃ t, y = .error (e, t) := by
  cases h with
  | ok h => simp
  | error e s t => simp

end

end RpiFastbootd
