import Mathlib.Data.List.Basic
import Mathlib.Tactic.Common

/-!
# Paths and their components

Lexical normalisation of a path: empty components and single dots are dropped, two dots take the
component before them away.  A text in which two dots never stand between separators can still end
with them, and then goes up once (`resolve_eq`).
-/

namespace RpiFastbootd

def parent : List Char := ['.', '.']

/-- A component that names something. -/
def isName (c : List Char) : Bool := decide (c ≠ [] ∧ c ≠ ['.'] ∧ c ≠ parent)

def components (path : List Char) : List (List Char) := path.splitOn '/'

/-- From a directory along one component. -/
def enter (dir : List (List Char)) (c : List Char) : List (List Char) :=
  if c = parent then dir.dropLast else if isName c = true then dir ++ [c] else dir

def resolve (dir : List (List Char)) (cs : List (List Char)) : List (List Char) :=
  cs.foldl enter dir

def normalize (path : List Char) : List (List Char) := resolve [] (components path)

/-- The path normalises to one that goes on after the components of a directory. -/
def Below (dir : List (List Char)) (path : List Char) : Prop :=
  ∃ c rest, normalize path = dir ++ c :: rest

section

variable {dir cs : List (List Char)} {path : List Char}

theorem isName_parent : isName parent = false := by decide

theorem resolve_of_not_mem (h : parent ∉ cs) : resolve dir cs = dir ++ cs.filter isName := by
  induction cs generalizing dir with
  | nil => exact (List.append_nil _).symm
  | cons c cs ih =>
    rw [List.mem_cons, not_or] at h
    show resolve (enter dir c) cs = _
    rw [ih h.2, enter, if_neg (Ne.symm h.1), List.filter_cons]
    split_ifs with hname
    · rw [List.append_assoc, List.singleton_append]
    · rfl

/-- Two dots at the end go up once. -/
theorem resolve_eq (h : parent ∉ cs.dropLast) :
    resolve dir cs =
      if cs.getLast? = some parent then (dir ++ cs.filter isName).dropLast
      else dir ++ cs.filter isName := by
  obtain rfl | ⟨init, last, rfl⟩ := List.eq_nil_or_concat' cs
  · simp [resolve]
  rw [List.dropLast_concat] at h
  simp only [List.getLast?_concat, Option.some.injEq]
  have hstep : resolve dir (init ++ [last]) = enter (dir ++ init.filter isName) last := by
    rw [resolve, List.foldl_append]
    show enter (resolve dir init) last = _
    rw [resolve_of_not_mem h]
  rw [hstep, enter, List.filter_append]
  split_ifs with hparent hname
  · rw [hparent]
    simp [isName_parent]
  · simp [hname]
  · simp [hname]

/-- Two dots before the last separator stand behind a separator, or begin the text. -/
theorem parent_mem_dropLast (h : parent ∈ (components path).dropLast) :
    parent ++ ['/'] <+: path ∨ '/' :: parent ++ ['/'] <:+: path := by
  have hpath : ['/'].intercalate (components path) = path := List.intercalate_splitOn '/'
  rw [← hpath]
  generalize components path = cs at h
  induction cs with
  | nil => cases h
  | cons c cs ih =>
    cases cs with
    | nil => cases h
    | cons b cs =>
      rw [List.dropLast_cons_of_ne_nil (List.cons_ne_nil b cs), List.mem_cons] at h
      rw [List.intercalate_cons_cons]
      obtain rfl | h := h
      · exact .inl (List.prefix_append _ _)
      · obtain ⟨rest, hrest⟩ | hin := ih h
        · refine .inr ⟨c, rest, ?_⟩
          rw [← hrest]
          simp
        · exact .inr (hin.trans (List.suffix_append _ _).isInfix)

/-- There are names enough to stay below the beginning, also after going up at the end. -/
def Descends (cs : List (List Char)) : Prop :=
  (if cs.getLast? = some parent then 2 else 1) ≤ (cs.filter isName).length

instance (cs : List (List Char)) : Decidable (Descends cs) := by unfold Descends; infer_instance

theorem resolve_below_iff {d : List Char} (h : parent ∉ cs.dropLast) :
    (∃ c rest, resolve [d] cs = [d] ++ c :: rest) ↔ Descends cs := by
  rw [resolve_eq h, Descends]
  generalize cs.filter isName = names
  split_ifs
  · obtain _ | ⟨a, _ | ⟨b, names⟩⟩ := names
    · simp
    · simp
    · simp
  · cases names with
    | nil => simp
    | cons a names => simp

/-- A first component that is another name is not left for the directory. -/
theorem not_resolve_below {d e : List Char} (hne : d ≠ e) (h : parent ∉ cs.dropLast)
    (rest : List (List Char)) : resolve [d] cs ≠ e :: rest := by
  rw [resolve_eq h]
  split_ifs
  · cases cs.filter isName with
    | nil => simp
    | cons a names => simp [hne]
  · simp [hne]

end

end RpiFastbootd
