import Mathlib.Tactic.Common

/-!
# Submission and completion rings

A ring between a program and a kernel.  The program prepares requests and submits them, the kernel
takes some of those that are pending, completes what it has taken in any order, and the program sees
the completions in the order in which they were posted.  No step but the preparation of a request
and the sight of a completion changes how many there are in all (`size`).
-/

namespace RpiFastbootd

/-- A ring for requests `ρ` that are completed with a `κ`. -/
structure Ring (ρ κ : Type) where
  entries : ℕ
  pending : List ρ := []
  kernel : List ρ := []
  completions : List κ := []

namespace Ring

variable {ρ κ : Type}

/-- The room for requests that the kernel has not taken. -/
def spaceLeft (r : Ring ρ κ) : ℕ := r.entries - r.pending.length

def prepare (r : Ring ρ κ) (q : ρ) : Ring ρ κ := { r with pending := r.pending ++ [q] }

/-- The kernel takes the first `n` pending requests. -/
def accept (r : Ring ρ κ) (n : ℕ) : Ring ρ κ :=
  { r with pending := r.pending.drop n, kernel := r.kernel ++ r.pending.take n }

/-- The kernel completes the `i`-th of the requests it has taken. -/
def complete (r : Ring ρ κ) (i : ℕ) (result : κ) : Ring ρ κ :=
  { r with kernel := r.kernel.eraseIdx i, completions := r.completions ++ [result] }

/-- The requests of a ring, at all stages. -/
def size (r : Ring ρ κ) : ℕ := r.pending.length + r.kernel.length + r.completions.length

@[simp] theorem size_prepare (r : Ring ρ κ) (q : ρ) : (r.prepare q).size = r.size + 1 := by
  simp only [size, prepare, List.length_append, List.length_singleton]
  omega

@[simp] theorem size_accept (r : Ring ρ κ) (n : ℕ) : (r.accept n).size = r.size := by
  simp only [size, accept, List.length_append, List.length_drop, List.length_take]
  omega

theorem size_complete {r : Ring ρ κ} {i : ℕ} (hi : i < r.kernel.length) (result : κ) :
    (r.complete i result).size = r.size := by
  simp only [size, complete, List.length_append, List.length_singleton,
    List.length_eraseIdx_of_lt hi]
  omega

theorem size_of_completions {r : Ring ρ κ} {result : κ} {rest : List κ}
    (h : r.completions = result :: rest) : r.size = { r with completions := rest }.size + 1 := by
  simp only [size, h, List.length_cons]
  omega

/-- A ring without requests is a new one. -/
theorem eq_of_size_eq_zero {r : Ring ρ κ} (h : r.size = 0) : r = { entries := r.entries } := by
  obtain ⟨entries, pending, kernel, completions⟩ := r
  simp only [size, Nat.add_eq_zero_iff, List.length_eq_zero_iff] at h
  obtain ⟨⟨rfl, rfl⟩, rfl⟩ := h
  rfl

end Ring

end RpiFastbootd
