import RpiFastbootd.Lib.Scan

/-!
# Searching text

What `find` and `substr` of a string do together: the rest behind the first occurrence of a pattern
(`after`), and what stands before the first of a character (`upTo`).  A stream gives the lines of a
text and the words of a line.
-/

namespace RpiFastbootd

section

variable {α : Type} {pattern l rest : List α}

/-- The pattern occurs with this rest behind it, and no earlier. -/
def IsAfter (pattern l rest : List α) : Prop :=
  ∃ before, l = before ++ pattern ++ rest ∧
    ∀ b r, l = b ++ pattern ++ r → before.length ≤ b.length

theorem IsAfter.isInfix (h : IsAfter pattern l rest) : pattern <:+: l := by
  obtain ⟨before, rfl, -⟩ := h
  exact List.infix_append before pattern rest

/-- Behind an element with which the pattern does not begin, the first occurrence is the same. -/
theorem isAfter_cons {a : α} (h : ¬ pattern <+: a :: l) :
    IsAfter pattern (a :: l) rest ↔ IsAfter pattern l rest := by
  constructor
  · rintro ⟨before, heq, hleast⟩
    cases before with
    | nil => exact (h ⟨rest, heq.symm⟩).elim
    | cons b before =>
      obtain ⟨rfl, rfl⟩ := List.cons.inj heq
      refine ⟨before, rfl, fun b' r' heq' => ?_⟩
      exact Nat.le_of_succ_le_succ (hleast (a :: b') r' (congrArg (a :: ·) heq'))
  · rintro ⟨before, rfl, hleast⟩
    refine ⟨a :: before, rfl, fun b r heq => ?_⟩
    cases b with
    | nil => exact (h ⟨r, heq.symm⟩).elim
    | cons b bs => exact Nat.succ_le_succ (hleast bs r (List.cons.inj heq).2)

theorem isAfter_of_isPrefix (h : pattern <+: l) :
    IsAfter pattern l rest ↔ l.drop pattern.length = rest := by
  obtain ⟨r, rfl⟩ := h
  rw [List.drop_left]
  constructor
  · rintro ⟨before, heq, hleast⟩
    obtain rfl : before = [] := List.length_eq_zero_iff.1 (Nat.le_zero.1 (hleast [] r rfl))
    exact List.append_cancel_left heq
  · rintro rfl
    exact ⟨[], rfl, fun _ _ _ => Nat.zero_le _⟩

variable [DecidableEq α]

/-- What follows the first occurrence of a pattern. -/
def after (pattern : List α) : List α → Option (List α)
  | [] => if pattern = [] then some [] else none
  | a :: l =>
    if pattern <+: a :: l then some ((a :: l).drop pattern.length) else after pattern l

theorem after_eq_some_iff : after pattern l = some rest ↔ IsAfter pattern l rest := by
  induction l with
  | nil =>
    rw [after]
    split_ifs with hnil
    · subst hnil
      rw [isAfter_of_isPrefix List.nil_prefix, Option.some.injEq]
      rfl
    · refine iff_of_false (by simp) ?_
      rintro ⟨before, heq, -⟩
      exact hnil (List.append_eq_nil_iff.1 (List.append_eq_nil_iff.1 heq.symm).1).2
  | cons a l ih =>
    rw [after]
    split_ifs with hpre
    · rw [isAfter_of_isPrefix hpre, Option.some.injEq]
    · rw [ih, isAfter_cons hpre]

/-- What stands before the first of an element, where there is one. -/
def upTo (a : α) (l : List α) : Option (List α) := if a ∈ l then some (l.takeWhile (· ≠ a)) else none

theorem upTo_eq_some_iff {a : α} {s : List α} :
    upTo a l = some s ↔ a ∉ s ∧ ∃ more, l = s ++ a :: more := by
  unfold upTo
  constructor
  · intro h
    split_ifs at h with hmem
    obtain ⟨s', more, rfl, hnot⟩ := List.eq_append_cons_of_mem hmem
    obtain rfl : s' = s := by
      rw [← Option.some.inj h, List.takeWhile_append_of_pos fun x hx => by
        simpa using ne_of_mem_of_not_mem hx hnot]
      simp
    exact ⟨hnot, more, rfl⟩
  · rintro ⟨hnot, more, rfl⟩
    rw [if_pos (by simp), List.takeWhile_append_of_pos fun x hx => by
      simpa using ne_of_mem_of_not_mem hx hnot]
    simp

end

/-! ### Streams of text -/

/-- The lines that `std::getline` reads: there is none behind the last line break. -/
def getlines (text : List Char) : List (List Char) :=
  let lines := text.splitOn '\n'
  if lines.getLast? = some [] then lines.dropLast else lines

/-- The word that `>>` reads. -/
def word (text : List Char) : List Char := (text.dropWhile isSpace).takeWhile fun c => !isSpace c

/-- A text that begins with some characters of a word gives a word that begins with them. -/
theorem word_append {w rest : List Char} (hne : w ≠ []) (hw : ∀ c ∈ w, isSpace c = false) :
    word (w ++ rest) = w ++ rest.takeWhile fun c => !isSpace c := by
  obtain ⟨c, cs, rfl⟩ := List.exists_cons_of_ne_nil hne
  have hc : isSpace c = false := hw c List.mem_cons_self
  rw [word, List.cons_append, List.dropWhile_cons_of_neg (by simp [hc]), ← List.cons_append,
    List.takeWhile_append_of_pos fun d hd => by simp [hw d hd]]

/-- A word ends where a blank follows. -/
theorem takeWhile_of_blank {rest : List Char} (h : ∀ c ∈ rest.head?, isSpace c = true) :
    rest.takeWhile (fun c => !isSpace c) = [] := by
  cases rest with
  | nil => rfl
  | cons c cs => exact List.takeWhile_cons_of_neg (by simp [h c rfl])

end RpiFastbootd
