import RpiFastbootd.Idp.Groups
import RpiFastbootd.Idp.Walk
import RpiFastbootd.Lib.Outcome

/-!
# The partitions a walk visits

`reach` collects the groups of every object a walk comes to, in the order of the visits, or has no
value when some level on the way is refused.  The walk succeeds exactly when `reach` has a value
and the callback accepts its partitions one after the other (`foreachPartition_ok_iff`), for
every document and every callback.
-/

namespace RpiFastbootd

mutual
/-- The groups of the objects a walk visits at a node and below it. -/
def reach (p : Place) : Json → Option (List Group)
  | .obj ms => do
    return (← Collect.level p.underEncrypted p.inSlot (.obj ms)) ++ (← reachMembers p ms)
  | .arr xs => reachElems p xs
  | _ => some []

def reachMembers (p : Place) : List (String × Json) → Option (List Group)
  | [] => some []
  | (key, v) :: ms =>
    if v.isObject || v.isArray then do return (← reach (p.member key v) v) ++ (← reachMembers p ms)
    else some []

def reachElems (p : Place) : List Json → Option (List Group)
  | [] => some []
  | v :: xs =>
    if v.isObject || v.isArray then do return (← reach p.elem v) ++ (← reachElems p xs)
    else some []
end

mutual
theorem proper_reach {p : Place} {v : Json} {gs : List Group} (h : reach p v = some gs) :
    ∀ g ∈ gs, g.Proper := by
  cases v with
  | obj ms =>
    obtain ⟨a, b, ha, hb, rfl⟩ := append_eq_some_iff.1 h
    exact List.forall_mem_append.2 ⟨proper_level ha, proper_reachMembers hb⟩
  | arr xs => exact proper_reachElems h
  | null | bool _ | int _ | real _ | str _ =>
    cases h
    simp

theorem proper_reachMembers {p : Place} {ms : List (String × Json)} {gs : List Group}
    (h : reachMembers p ms = some gs) : ∀ g ∈ gs, g.Proper := by
  cases ms with
  | nil =>
    cases h
    simp
  | cons m ms =>
    rw [reachMembers] at h
    split_ifs at h
    · obtain ⟨a, b, ha, hb, rfl⟩ := append_eq_some_iff.1 h
      exact List.forall_mem_append.2 ⟨proper_reach ha, proper_reachMembers hb⟩
    · cases h
      simp

theorem proper_reachElems {p : Place} {xs : List Json} {gs : List Group}
    (h : reachElems p xs = some gs) : ∀ g ∈ gs, g.Proper := by
  cases xs with
  | nil =>
    cases h
    simp
  | cons v xs =>
    rw [reachElems] at h
    split_ifs at h
    · obtain ⟨a, b, ha, hb, rfl⟩ := append_eq_some_iff.1 h
      exact List.forall_mem_append.2 ⟨proper_reach ha, proper_reachElems hb⟩
    · cases h
      simp
end

section

variable {σ : Type} {func : Partition → σ → Except LoadError σ}

theorem visitAll_append (ps qs : List Partition) (acc : σ) :
    visitAll func (ps ++ qs) acc = visitAll func ps acc >>= visitAll func qs := by
  induction ps generalizing acc with
  | nil => rfl
  | cons p ps ih =>
    rw [List.cons_append, visitAll, visitAll]
    cases func p acc with
    | error e => rfl
    | ok acc' => exact ih acc'

/-- The walk `w` visits the partitions of `s`, or fails when there are none. -/
def Visits (func : Partition → σ → Except LoadError σ) (w : ℕ × σ → Except (LoadError × σ) (ℕ × σ))
    (s : Option (List Group)) : Prop :=
  ∀ st r, w st = .ok r ↔ ∃ gs, s = some gs ∧ r.1 = st.1 + countGroups gs ∧
    visitAll func (numberGroups st.1 gs) st.2 = .ok r.2

theorem visits_pure : Visits func (fun st => .ok st) (some []) := by
  rintro ⟨n, acc⟩ ⟨m, acc'⟩
  simp [numberGroups, visitAll, pure, Except.pure, eq_comm]

theorem Visits.bind {w w' : ℕ × σ → Except (LoadError × σ) (ℕ × σ)} {s t : Option (List Group)}
    (hw : Visits func w s) (hw' : Visits func w' t) :
    Visits func (fun st => w st >>= w') (do return (← s) ++ (← t)) := by
  intro st r
  simp only [bind_eq_ok_iff]
  constructor
  · rintro ⟨m, hm, hr⟩
    obtain ⟨gs, rfl, hgn, hga⟩ := (hw st m).1 hm
    obtain ⟨hs, rfl, hhn, hha⟩ := (hw' m r).1 hr
    refine ⟨gs ++ hs, rfl, by rw [hhn, hgn, countGroups_append, Nat.add_assoc], ?_⟩
    rw [numberGroups_append, visitAll_append, hga, ← hgn]
    exact hha
  · rintro ⟨l, hl, hn, ha⟩
    obtain ⟨gs, hs, hgs, hhs, rfl⟩ := append_eq_some_iff.1 hl
    rw [numberGroups_append, visitAll_append, bind_eq_ok_iff] at ha
    obtain ⟨acc, hga, hha⟩ := ha
    refine ⟨(st.1 + countGroups gs, acc), (hw st _).2 ⟨gs, hgs, rfl, hga⟩, ?_⟩
    exact (hw' _ r).2 ⟨hs, hhs, by rw [hn, countGroups_append, Nat.add_assoc], hha⟩

theorem leaving_eq_ok_iff {α : Type} {acc : σ} {x : Except LoadError α} {a : α} :
    leaving acc x = .ok a ↔ x = .ok a := by
  cases x <;> simp [leaving]

theorem raises_eq_ok_iff {α : Type} {x : Except Exn α} {a : α} :
    raises x = .ok a ↔ x = .ok a := by
  cases x <;> simp [raises]

theorem visitObject_visits (p : Place) (ms : List (String × Json)) :
    Visits func (visitObject func p (.obj ms))
      (Collect.level p.underEncrypted p.inSlot (.obj ms)) := by
  intro st r
  have hclean := objectPartitions_emits p.underEncrypted p.inSlot ms { num := st.1 }
  simp only [visitObject, bind_eq_ok_iff, leaving_eq_ok_iff, raises_eq_ok_iff]
  constructor
  · rintro ⟨⟨nr, acc⟩, ho, h⟩
    cases hn : nr.iserror with
    | true => simp [hn] at h
    | false =>
      rw [NavStep.clean_eq_some_iff.2 ⟨nr, ho, hn⟩] at hclean
      obtain ⟨gs, hl, rfl⟩ := Option.map_eq_some_iff.1 hclean.symm
      simp only [hn, Bool.false_eq_true, if_false, bind_eq_ok_iff, pure_eq_ok_iff] at h
      obtain ⟨acc', ha, rfl⟩ := h
      exact ⟨gs, hl, rfl, by simpa [NavAcc.extend] using ha⟩
  · rintro ⟨gs, hl, hn, ha⟩
    rw [hl, Option.map_some, NavStep.clean_eq_some_iff] at hclean
    obtain ⟨nr, ho, he⟩ := hclean
    refine ⟨_, ho, ?_⟩
    simp only [he, Bool.false_eq_true, if_false, bind_eq_ok_iff, pure_eq_ok_iff]
    exact ⟨r.2, by simpa [NavAcc.extend] using ha, by rw [NavAcc.extend, ← hn]⟩

mutual
theorem walk_visits (p : Place) (v : Json) : Visits func (walk func p v) (reach p v) := by
  cases v with
  | obj ms =>
    have := (@visitObject_visits σ func p ms).bind (walkMembers_visits p ms)
    intro st r
    rw [walk, reach]
    exact this st r
  | arr xs =>
    intro st r
    rw [walk, reach]
    exact walkElems_visits p xs st r
  | null | bool _ | int _ | real _ | str _ =>
    intro st r
    rw [walk, reach]
    all_goals first | exact visits_pure st r | simp

theorem walkMembers_visits (p : Place) (ms : List (String × Json)) :
    Visits func (walkMembers func p ms) (reachMembers p ms) := by
  cases ms with
  | nil =>
    intro st r
    rw [walkMembers, reachMembers]
    exact visits_pure st r
  | cons m ms =>
    obtain ⟨key, v⟩ := m
    intro st r
    rw [walkMembers, reachMembers]
    split_ifs with hv
    · exact (walk_visits (p.member key v) v).bind (walkMembers_visits p ms) st r
    · exact visits_pure st r

theorem walkElems_visits (p : Place) (xs : List Json) :
    Visits func (walkElems func p xs) (reachElems p xs) := by
  cases xs with
  | nil =>
    intro st r
    rw [walkElems, reachElems]
    exact visits_pure st r
  | cons v xs =>
    intro st r
    rw [walkElems, reachElems]
    split_ifs with hv
    · exact (walk_visits p.elem v).bind (walkElems_visits p xs) st r
    · exact visits_pure st r
end

/-- A walk over the whole map succeeds exactly when every level it comes to is accepted and the
callback accepts the partitions of these levels, numbered in the order of the visits. -/
theorem foreachPartition_ok_iff (pmap : Json) (h : pmap.Sorted) (acc r : σ) :
    foreachPartition func pmap acc = .ok r ↔
      ∃ gs, reach {} pmap = some gs ∧ visitAll func (numberGroups 0 gs) acc = .ok r := by
  rw [foreachPartition_eq_walk func pmap h, map_eq_ok_iff]
  constructor
  · rintro ⟨st, hw, rfl⟩
    obtain ⟨gs, hg, -, ha⟩ := (walk_visits {} pmap (0, acc) st).1 hw
    exact ⟨gs, hg, ha⟩
  · rintro ⟨gs, hg, ha⟩
    exact ⟨(0 + countGroups gs, r), (walk_visits {} pmap (0, acc) _).2 ⟨gs, hg, rfl, ha⟩, rfl⟩

/-! ### Where every level is accepted -/

/-- The walk `w` is the visit of the partitions of `s`, with the failure of the callback if there
is one. -/
def VisitsAll (func : Partition → σ → Except LoadError σ)
    (w : ℕ × σ → Except (LoadError × σ) (ℕ × σ)) (s : Option (List Group)) : Prop :=
  ∀ gs, s = some gs → ∀ st, w st =
    Prod.mk (st.1 + countGroups gs) <$> visitAll func (numberGroups st.1 gs) st.2

theorem visitsAll_pure : VisitsAll func (fun st => .ok st) (some []) := by
  rintro _ ⟨⟩ st
  rfl

theorem VisitsAll.bind {w w' : ℕ × σ → Except (LoadError × σ) (ℕ × σ)} {s t : Option (List Group)}
    (hw : VisitsAll func w s) (hw' : VisitsAll func w' t) :
    VisitsAll func (fun st => w st >>= w') (do return (← s) ++ (← t)) := by
  intro l hl st
  obtain ⟨gs, hs, hgs, hhs, rfl⟩ := append_eq_some_iff.1 hl
  show w st >>= w' = _
  rw [hw gs hgs st, numberGroups_append, visitAll_append]
  cases visitAll func (numberGroups st.1 gs) st.2 with
  | error e => rfl
  | ok acc =>
    rw [countGroups_append, ← Nat.add_assoc]
    exact hw' hs hhs _

theorem visitObject_visitsAll (p : Place) (ms : List (String × Json)) :
    VisitsAll func (visitObject func p (.obj ms))
      (Collect.level p.underEncrypted p.inSlot (.obj ms)) := by
  intro gs hgs st
  have hclean := objectPartitions_emits p.underEncrypted p.inSlot ms { num := st.1 }
  rw [hgs, Option.map_some, NavStep.clean_eq_some_iff] at hclean
  obtain ⟨nr, ho, he⟩ := hclean
  rw [visitObject, ho]
  show (if nr.iserror then _ else _) = _
  rw [he]
  rfl

mutual
theorem walk_visitsAll (p : Place) (v : Json) : VisitsAll func (walk func p v) (reach p v) := by
  cases v with
  | obj ms =>
    have := (@visitObject_visitsAll σ func p ms).bind (walkMembers_visitsAll p ms)
    intro gs hgs st
    rw [reach] at hgs
    rw [walk]
    exact this gs hgs st
  | arr xs =>
    intro gs hgs st
    rw [reach] at hgs
    rw [walk]
    exact walkElems_visitsAll p xs gs hgs st
  | null | bool _ | int _ | real _ | str _ =>
    intro gs hgs st
    rw [reach] at hgs
    rw [walk]
    all_goals first | exact visitsAll_pure gs hgs st | simp

theorem walkMembers_visitsAll (p : Place) (ms : List (String × Json)) :
    VisitsAll func (walkMembers func p ms) (reachMembers p ms) := by
  cases ms with
  | nil =>
    intro gs hgs st
    rw [walkMembers]
    exact visitsAll_pure gs hgs st
  | cons m ms =>
    obtain ⟨key, v⟩ := m
    intro gs hgs st
    rw [reachMembers] at hgs
    rw [walkMembers]
    split_ifs at hgs ⊢ with hv
    · exact (walk_visitsAll (p.member key v) v).bind (walkMembers_visitsAll p ms) gs hgs st
    · exact visitsAll_pure gs hgs st

theorem walkElems_visitsAll (p : Place) (xs : List Json) :
    VisitsAll func (walkElems func p xs) (reachElems p xs) := by
  cases xs with
  | nil =>
    intro gs hgs st
    rw [walkElems]
    exact visitsAll_pure gs hgs st
  | cons v xs =>
    intro gs hgs st
    rw [reachElems] at hgs
    rw [walkElems]
    split_ifs at hgs ⊢ with hv
    · exact (walk_visitsAll p.elem v).bind (walkElems_visitsAll p xs) gs hgs st
    · exact visitsAll_pure gs hgs st
end

/-- Where every level is accepted, the walk over the whole map fails just as its callback does. -/
theorem foreachPartition_eq_visitAll {pmap : Json} (h : pmap.Sorted) {gs : List Group}
    (hg : reach {} pmap = some gs) (acc : σ) :
    foreachPartition func pmap acc = visitAll func (numberGroups 0 gs) acc := by
  rw [foreachPartition_eq_walk func pmap h, walk_visitsAll {} pmap gs hg]
  cases visitAll func (numberGroups 0 gs) acc <;> rfl

end

end RpiFastbootd
