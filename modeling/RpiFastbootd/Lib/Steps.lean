import Mathlib.Tactic.Common

/-!
# Programs that ask an environment to perform steps

A program performs steps that succeed or fail as the environment has it, keeps a journal of the
steps it has performed, and may die.  `Follows` says what a program makes of a plan: its result is
known whatever the environment does, and when no step of the plan fails, all of them have been
performed and the state has changed in a known way.  The rules give this for sequences and loops
that stop at the first failure.  `Preserves` says that a program keeps an invariant of the state in
every environment, `Performs` what steps it asks for at all, and `InOrder` in which order it asks for
those of one kind.
-/

namespace RpiFastbootd

/-- A state, and the steps performed so far. -/
structure Journal (S σ : Type) where
  state : σ
  log : List S := []

/-- A program over a journal; `none` when the process dies. -/
abbrev StepM (S σ : Type) := StateT (Journal S σ) Option

section

variable {S σ α β : Type}

/-- Ask for a step and learn whether it succeeded. -/
def perform (env : S → Bool) (s : S) : StepM S σ Bool := fun j =>
  some (env s, { j with log := j.log ++ [s] })

def update (f : σ → σ) : StepM S σ Unit := fun j => some ((), { j with state := f j.state })

/-- A value without which the process dies. -/
def require (x : Option α) : StepM S σ α := fun j => x.map fun a => (a, j)

/-- From every journal `m` gives `a`; when `env` grants every step of `plan`, `m` has performed
them all and changed the state by `f`. -/
def Follows (env : S → Bool) (m : StepM S σ α) (plan : List S) (a : α) (f : σ → σ) : Prop :=
  ∀ j, ∃ j', m j = some (a, j') ∧ j.log ⊆ j'.log ∧
    (plan.all env → plan ⊆ j'.log ∧ j'.state = f j.state)

variable {env : S → Bool} {m : StepM S σ α} {p q : List S} {a : α} {b : β} {f g : σ → σ}

theorem follows_pure (a : α) : Follows env (pure a : StepM S σ α) [] a id :=
  fun j => ⟨j, rfl, List.Subset.refl _, fun _ => ⟨List.nil_subset _, rfl⟩⟩

theorem follows_perform (s : S) : Follows env (perform env s : StepM S σ Bool) [s] (env s) id :=
  fun _ => ⟨_, rfl, List.subset_append_left _ _, fun _ => ⟨List.subset_append_right _ _, rfl⟩⟩

/-- A step that no plan waits for. -/
theorem follows_ignored (s : S) : Follows env (perform env s : StepM S σ Bool) [] (env s) id :=
  fun _ => ⟨_, rfl, List.subset_append_left _ _, fun _ => ⟨List.nil_subset _, rfl⟩⟩

theorem follows_update (f : σ → σ) (a : α) :
    Follows env (do update f; return a : StepM S σ α) [] a f :=
  fun _ => ⟨_, rfl, List.Subset.refl _, fun _ => ⟨List.nil_subset _, rfl⟩⟩

theorem follows_require {x : Option α} (h : x = some a) :
    Follows env (require x : StepM S σ α) [] a id := by
  subst h
  exact fun j => ⟨j, rfl, List.Subset.refl _, fun _ => ⟨List.nil_subset _, rfl⟩⟩

theorem Follows.bind {k : α → StepM S σ β} (hm : Follows env m p a f)
    (hk : Follows env (k a) q b g) : Follows env (m >>= k) (p ++ q) b (g ∘ f) := by
  intro j
  obtain ⟨j₁, hj₁, hlog₁, hplan₁⟩ := hm j
  obtain ⟨j₂, hj₂, hlog₂, hplan₂⟩ := hk j₁
  refine ⟨j₂, ?_, List.Subset.trans hlog₁ hlog₂, fun hall => ?_⟩
  · change (m j).bind _ = _
    rw [hj₁]
    exact hj₂
  · rw [List.all_append, Bool.and_eq_true] at hall
    obtain ⟨hp, hf⟩ := hplan₁ hall.1
    obtain ⟨hq, hg⟩ := hplan₂ hall.2
    exact ⟨List.append_subset.2 ⟨List.Subset.trans hp hlog₂, hq⟩, by rw [hg, hf, Function.comp]⟩

/-- Of a plan with a failing step only the result is left. -/
theorem Follows.fail (h : Follows env m p a f) (hq : q.all env = false) : Follows env m q a g := by
  intro j
  obtain ⟨j', hj, hlog, -⟩ := h j
  exact ⟨j', hj, hlog, fun hall => by rw [hq] at hall; cases hall⟩

theorem Follows.congr (h : Follows env m p a f) (hp : p = q) (hf : f = g) : Follows env m q a g :=
  hp ▸ hf ▸ h

/-- A program that succeeds when its plan does, and is followed by another one or by a report of
the failure. -/
theorem Follows.andThen {m n report : StepM S σ Bool} {r : List S} {h : σ → σ}
    (hm : Follows env m p (p.all env) f) (hn : Follows env n q (q.all env) g)
    (hr : Follows env report r false h) :
    Follows env (do if ← m then n else report) (p ++ q) ((p ++ q).all env) (g ∘ f) := by
  rw [List.all_append]
  cases hp : p.all env with
  | true =>
    rw [hp] at hm
    exact hm.bind hn
  | false =>
    rw [hp] at hm
    exact (hm.bind hr).fail (by rw [List.all_append, hp, Bool.false_and])

theorem allM_cons {body : α → StepM S σ Bool} (x : α) (xs : List α) :
    (x :: xs).allM body = (do if ← body x then xs.allM body else pure false) := by
  rw [List.allM]
  congr 1
  funext b
  cases b <;> rfl

/-- A loop that stops at the first failure. -/
theorem follows_allM {body : α → StepM S σ Bool} {plan : α → List S} {change : α → σ → σ}
    {xs : List α}
    (h : ∀ x ∈ xs, Follows env (body x) (plan x) ((plan x).all env) (change x)) :
    Follows env (xs.allM body) (xs.flatMap plan) ((xs.flatMap plan).all env)
      (fun s => xs.foldl (fun s x => change x s) s) := by
  induction xs with
  | nil => exact follows_pure true
  | cons x xs ih =>
    rw [List.forall_mem_cons] at h
    rw [allM_cons, List.flatMap_cons]
    exact h.1.andThen (ih h.2) (follows_pure false)

/-- Whatever the environment does, `m` keeps the invariant. -/
def Preserves (I : σ → Prop) (m : StepM S σ α) : Prop :=
  ∀ j a j', m j = some (a, j') → I j.state → I j'.state

variable {I : σ → Prop}

theorem preserves_pure (a : α) : Preserves I (pure a : StepM S σ α) := by
  rintro j a j' h
  cases h
  exact id

theorem preserves_perform (s : S) : Preserves I (perform env s : StepM S σ Bool) := by
  rintro j a j' h
  cases h
  exact id

theorem preserves_update (h : ∀ s, I s → I (f s)) : Preserves I (update f : StepM S σ Unit) := by
  rintro j a j' hj
  cases hj
  exact h j.state

theorem preserves_require (x : Option α) : Preserves I (require x : StepM S σ α) := by
  rintro j a j' h
  obtain ⟨b, -, hb⟩ := Option.map_eq_some_iff.1 h
  cases hb
  exact id

theorem Preserves.bind {k : α → StepM S σ β} (hm : Preserves I m) (hk : ∀ a, Preserves I (k a)) :
    Preserves I (m >>= k) := by
  intro j b j' h hi
  obtain ⟨⟨a, j₁⟩, h₁, h₂⟩ := Option.bind_eq_some_iff.1 h
  exact hk a j₁ b j' h₂ (hm j a j₁ h₁ hi)

theorem Preserves.ite {c : Prop} [Decidable c] {m n : StepM S σ α} (hm : c → Preserves I m)
    (hn : ¬ c → Preserves I n) : Preserves I (if c then m else n) := by
  split_ifs with h
  · exact hm h
  · exact hn h

/-- A check and what follows its two outcomes. -/
theorem Preserves.check {m : StepM S σ Bool} {n report : StepM S σ α} (hm : Preserves I m)
    (hn : Preserves I n) (hr : Preserves I report) :
    Preserves I (do if ← m then n else report) :=
  hm.bind fun _ => .ite (fun _ => hn) fun _ => hr

theorem preserves_allM {body : α → StepM S σ Bool} {xs : List α}
    (h : ∀ x ∈ xs, Preserves I (body x)) : Preserves I (xs.allM body) := by
  induction xs with
  | nil => exact preserves_pure true
  | cons x xs ih =>
    rw [List.forall_mem_cons] at h
    rw [allM_cons]
    exact h.1.check (ih h.2) (preserves_pure false)

/-- Every step that `m` adds to the journal satisfies `P`. -/
def Performs (P : S → Prop) (m : StepM S σ α) : Prop :=
  ∀ j a j', m j = some (a, j') → ∀ s ∈ j'.log, s ∈ j.log ∨ P s

variable {P : S → Prop}

theorem performs_pure (a : α) : Performs P (pure a : StepM S σ α) := by
  rintro j a j' h s hs
  cases h
  exact .inl hs

theorem performs_perform {s : S} (h : P s) : Performs P (perform env s : StepM S σ Bool) := by
  rintro j a j' hj t ht
  cases hj
  rcases List.mem_append.1 ht with ht | ht
  · exact .inl ht
  · obtain rfl := List.mem_singleton.1 ht
    exact .inr h

theorem performs_update (f : σ → σ) : Performs P (update f : StepM S σ Unit) := by
  rintro j a j' h s hs
  cases h
  exact .inl hs

theorem Performs.bind {k : α → StepM S σ β} (hm : Performs P m) (hk : ∀ a, Performs P (k a)) :
    Performs P (m >>= k) := by
  intro j b j' h s hs
  obtain ⟨⟨a, j₁⟩, h₁, h₂⟩ := Option.bind_eq_some_iff.1 h
  rcases hk a j₁ b j' h₂ s hs with hs | hs
  · exact hm j a j₁ h₁ s hs
  · exact .inr hs

/-- What follows a required value is only run on that value. -/
theorem Performs.require {x : Option α} {k : α → StepM S σ β}
    (hk : ∀ a, x = some a → Performs P (k a)) : Performs P (do k (← require x)) := by
  intro j b j' h
  obtain ⟨⟨a, j₁⟩, h₁, h₂⟩ := Option.bind_eq_some_iff.1 h
  obtain ⟨c, hc, hj⟩ := Option.map_eq_some_iff.1 h₁
  cases hj
  exact hk a hc j b j' h₂

theorem Performs.ite {c : Prop} [Decidable c] {m n : StepM S σ α} (hm : c → Performs P m)
    (hn : ¬ c → Performs P n) : Performs P (if c then m else n) := by
  split_ifs with h
  · exact hm h
  · exact hn h

theorem Performs.check {m : StepM S σ Bool} {n report : StepM S σ α} (hm : Performs P m)
    (hn : Performs P n) (hr : Performs P report) :
    Performs P (do if ← m then n else report) :=
  hm.bind fun _ => .ite (fun _ => hn) fun _ => hr

theorem performs_allM {body : α → StepM S σ Bool} {xs : List α}
    (h : ∀ x ∈ xs, Performs P (body x)) : Performs P (xs.allM body) := by
  induction xs with
  | nil => exact performs_pure true
  | cons x xs ih =>
    rw [List.forall_mem_cons] at h
    rw [allM_cons]
    exact h.1.check (ih h.2) (performs_pure false)

/-- Of the steps that `sel` selects, `m` performs those of `L` from the first one on, and all of
them when it succeeds. -/
def InOrder (sel : S → Option β) (L : List β) (m : StepM S σ Bool) : Prop :=
  ∀ j ok j', m j = some (ok, j') → ∃ done, done <+: L ∧ (ok = true → done = L) ∧
    j'.log.filterMap sel = j.log.filterMap sel ++ done

/-- Programs that report a failure and perform no step. -/
def Reports (m : StepM S σ Bool) : Prop :=
  ∀ j ok j', m j = some (ok, j') → ok = false ∧ j'.log = j.log

variable {sel : S → Option β} {K L : List β}

theorem reports_false : Reports (pure false : StepM S σ Bool) := by
  rintro j ok j' h
  cases h
  exact ⟨rfl, rfl⟩

theorem inOrder_pure (b : Bool) : InOrder sel [] (pure b : StepM S σ Bool) := by
  rintro j ok j' h
  cases h
  exact ⟨[], List.nil_prefix, fun _ => rfl, by simp⟩

theorem inOrder_perform (s : S) :
    InOrder sel (sel s).toList (perform env s : StepM S σ Bool) := by
  rintro j ok j' h
  cases h
  refine ⟨(sel s).toList, List.prefix_rfl, fun _ => rfl, ?_⟩
  cases hs : sel s <;> simp [hs]

theorem InOrder.check {m n report : StepM S σ Bool} (hm : InOrder sel K m) (hn : InOrder sel L n)
    (hr : Reports report) : InOrder sel (K ++ L) (do if ← m then n else report) := by
  intro j ok j' h
  obtain ⟨⟨b, j₁⟩, h₁, h₂⟩ := Option.bind_eq_some_iff.1 h
  obtain ⟨first, hpre, hall, hlog⟩ := hm j b j₁ h₁
  cases b with
  | true =>
    obtain ⟨second, hpre', hall', hlog'⟩ := hn j₁ ok j' h₂
    rw [hall rfl] at hlog
    exact ⟨K ++ second, List.prefix_append_right_inj K |>.2 hpre', fun hok => by rw [hall' hok],
      by rw [hlog', hlog, List.append_assoc]⟩
  | false =>
    obtain ⟨rfl, hsame⟩ := hr j₁ ok j' h₂
    exact ⟨first, hpre.trans (List.prefix_append K L), (fun hok => by cases hok),
      by rw [hsame, hlog]⟩

theorem InOrder.require {x : Option α} {k : α → StepM S σ Bool}
    (hk : ∀ a, x = some a → InOrder sel L (k a)) : InOrder sel L (do k (← require x)) := by
  intro j ok j' h
  obtain ⟨⟨a, j₁⟩, h₁, h₂⟩ := Option.bind_eq_some_iff.1 h
  obtain ⟨c, hc, hj⟩ := Option.map_eq_some_iff.1 h₁
  cases hj
  exact hk a hc j ok j' h₂

theorem inOrder_allM {body : α → StepM S σ Bool} {out : α → List β} {xs : List α}
    (h : ∀ x ∈ xs, InOrder sel (out x) (body x)) : InOrder sel (xs.flatMap out) (xs.allM body) := by
  induction xs with
  | nil => exact inOrder_pure true
  | cons x xs ih =>
    rw [List.forall_mem_cons] at h
    rw [allM_cons, List.flatMap_cons]
    exact h.1.check (ih h.2) reports_false

end

end RpiFastbootd
