import RpiFastbootd.Idp.Nav
import RpiFastbootd.Lib.Outcome

/-!
# What a level collects

The partitions of a level, without the output list, the order counter and the error count: a
level that is processed without an exception and without an error yields a list of `Group`s, a
partition with the children of its container, in document order, and nothing otherwise.
`number` gives the groups their orders and parents.

`Emits` connects the two: `f.Emits ext s` says that the step `f` succeeds exactly when `s` has a
value, and that it then extends its output with that value.  Every step of the navigator emits
what its namesake in `Collect` collects; `objectPartitions_emits` is the result for a whole level.
-/

namespace RpiFastbootd

/-! ### Groups and their numbers -/

/-- A partition of the top level with the partitions inside it. -/
structure Group where
  head : Partition
  children : List Partition := []

/-- Partitions with a common parent, numbered from `n + 1`. -/
def numberFrom (parent : Option ℕ) : ℕ → List Partition → List Partition
  | _, [] => []
  | n, p :: ps => { p with parent, order := n + 1 } :: numberFrom parent (n + 1) ps

namespace Group

/-- The number of partitions of a group. -/
def count (g : Group) : ℕ := g.children.length + 1

/-- A container precedes its children, which name it as their parent. -/
def number (n : ℕ) (g : Group) : List Partition :=
  { g.head with parent := none, order := n + 1 } :: numberFrom (some (n + 1)) (n + 1) g.children

end Group

/-- The number of partitions of some groups. -/
def countGroups (gs : List Group) : ℕ := (gs.map Group.count).sum

/-- The partitions of some groups, numbered from `n + 1` on. -/
def numberGroups : ℕ → List Group → List Partition
  | _, [] => []
  | n, g :: gs => g.number n ++ numberGroups (n + g.count) gs

@[simp] theorem length_numberFrom (parent : Option ℕ) (n : ℕ) (ps : List Partition) :
    (numberFrom parent n ps).length = ps.length := by
  induction ps generalizing n with
  | nil => rfl
  | cons p ps ih => simp [numberFrom, ih]

theorem numberFrom_append (parent : Option ℕ) (n : ℕ) (ps qs : List Partition) :
    numberFrom parent n (ps ++ qs) =
      numberFrom parent n ps ++ numberFrom parent (n + ps.length) qs := by
  induction ps generalizing n with
  | nil => rfl
  | cons p ps ih =>
    rw [List.cons_append, numberFrom, numberFrom, ih, List.length_cons, List.cons_append]
    congr 3
    omega

@[simp] theorem length_number (n : ℕ) (g : Group) : (g.number n).length = g.count := by
  simp [Group.number, Group.count]

@[simp] theorem countGroups_nil : countGroups [] = 0 := rfl

@[simp] theorem countGroups_cons (g : Group) (gs : List Group) :
    countGroups (g :: gs) = g.count + countGroups gs := by
  simp [countGroups]

@[simp] theorem countGroups_append (gs hs : List Group) :
    countGroups (gs ++ hs) = countGroups gs + countGroups hs := by
  simp [countGroups]

theorem numberGroups_append (n : ℕ) (gs hs : List Group) :
    numberGroups n (gs ++ hs) = numberGroups n gs ++ numberGroups (n + countGroups gs) hs := by
  induction gs generalizing n with
  | nil => rfl
  | cons g gs ih =>
    rw [List.cons_append, numberGroups, numberGroups, ih, countGroups_cons, List.append_assoc,
      Nat.add_assoc]

/-- The order of a partition is its position in the numbering. -/
theorem order_numberFrom {parent : Option ℕ} {n k : ℕ} {ps : List Partition} {p : Partition}
    (h : (numberFrom parent n ps)[k]? = some p) : p.order = n + k + 1 := by
  induction ps generalizing n k with
  | nil => simp [numberFrom] at h
  | cons q ps ih =>
    cases k with
    | zero =>
      simp only [numberFrom, List.getElem?_cons_zero, Option.some.injEq] at h
      rw [← h, Nat.add_zero]
    | succ k =>
      have := ih h
      omega

theorem order_number {n k : ℕ} {g : Group} {p : Partition} (h : (g.number n)[k]? = some p) :
    p.order = n + k + 1 := by
  cases k with
  | zero =>
    simp only [Group.number, List.getElem?_cons_zero, Option.some.injEq] at h
    rw [← h, Nat.add_zero]
  | succ k =>
    have := order_numberFrom (n := n + 1) (k := k) h
    omega

theorem order_numberGroups {n k : ℕ} {gs : List Group} {p : Partition}
    (h : (numberGroups n gs)[k]? = some p) : p.order = n + k + 1 := by
  induction gs generalizing n k with
  | nil => simp [numberGroups] at h
  | cons g gs ih =>
    rw [numberGroups, List.getElem?_append] at h
    split_ifs at h with hk
    · exact order_number h
    · have := ih h
      rw [length_number] at hk this
      omega

theorem parent_numberFrom {parent : Option ℕ} {n : ℕ} {ps : List Partition} {p : Partition}
    (h : p ∈ numberFrom parent n ps) : p.parent = parent := by
  induction ps generalizing n with
  | nil => simp [numberFrom] at h
  | cons q ps ih =>
    rcases List.mem_cons.1 h with rfl | h
    · rfl
    · exact ih h

/-- The parent of a partition is the head of its group, which stands before it. -/
theorem parent_numberGroups {n k q : ℕ} {gs : List Group} {p : Partition}
    (h : (numberGroups n gs)[k]? = some p) (hp : p.parent = some q) :
    ∃ j < k, q = n + j + 1 ∧ ∃ g ∈ gs, g.children ≠ [] ∧
      (numberGroups n gs)[j]? = some { g.head with parent := none, order := q } := by
  induction gs generalizing n k with
  | nil => simp [numberGroups] at h
  | cons g gs ih =>
    rw [numberGroups, List.getElem?_append, length_number] at h
    split_ifs at h with hk
    · cases k with
      | zero =>
        simp only [Group.number, List.getElem?_cons_zero, Option.some.injEq] at h
        subst h
        cases hp
      | succ k =>
        rw [Group.number, List.getElem?_cons_succ] at h
        have hmem := List.mem_of_getElem? h
        obtain rfl : n + 1 = q := by simpa [parent_numberFrom hmem] using hp
        refine ⟨0, by omega, rfl, g, List.mem_cons_self, ?_, rfl⟩
        intro hc
        simp [hc, Group.count] at hk
    · obtain ⟨j, hj, hq, g', hg', hc, hget⟩ := ih h
      refine ⟨g.count + j, by omega, by omega, g', List.mem_cons_of_mem g hg', hc, ?_⟩
      rw [numberGroups, List.getElem?_append_right (by simp), length_number,
        Nat.add_sub_cancel_left]
      exact hget

namespace NavAcc

/-- The output after some partitions with a common parent. -/
def extendWith (parent : Option ℕ) (acc : NavAcc) (ps : List Partition) : NavAcc where
  result := acc.result ++ numberFrom parent acc.num ps
  num := acc.num + ps.length

/-- The output after some groups. -/
def extend (acc : NavAcc) (gs : List Group) : NavAcc where
  result := acc.result ++ numberGroups acc.num gs
  num := acc.num + countGroups gs

end NavAcc

/-! ### Collecting -/

namespace Collect

variable {α : Type}

/-- What the members of a list yield, in order. -/
def concat (f : Json → Option (List α)) : List Json → Option (List α)
  | [] => some []
  | v :: vs => do return (← f v) ++ (← concat f vs)

/-- What the member `key` of `v` yields: nothing when it is absent. -/
def atMember (v : Json) (key : String) (f : Json → Option (List α)) : Option (List α) :=
  match v.find key with
  | .ok (some w) => f w
  | .ok none => some []
  | .error _ => none

def regular (p : Json) : Option (List Partition) := do
  let nr ← (Validation.validateRegularPartition p).toOption
  if nr.iserror then none
  return [← (readRegularPartition p).toOption]

def regulars (partitions : Json) : Option (List Partition) := concat regular partitions.elems

/-- The partitions of a slot of a container. -/
def innerSlot (slot : Json) : Option (List Partition) := atMember slot "partitions" regulars

/-- The children of a container: those in its slots first. -/
def children (node : Json) : Option (List Partition) := do
  return (← atMember node "slots" fun slots => concat innerSlot slots.elems) ++
    (← atMember node "partitions" regulars)

/-- The checks of an encrypted node that do not look at its children. -/
def containerOk (node : Json) : Except Exn Bool := do
  if (← Validation.validateLUKS node).iserror then return false
  if (← node.isMember "expand-to-fit") && !(← node.get "expand-to-fit").isBool then return false
  return (← node.isMember "slots") || (← node.isMember "partitions")

def container (node : Json) : Option (List Group) := do
  if !(← (containerOk node).toOption) then none
  let head ← (createEncryptedPartition node).toOption
  return [{ head, children := ← children node }]

def root (p : Partition) : Group := { head := p }

/-- The groups of the regular partitions of a top-level object. -/
def roots (partitions : Json) : Option (List Group) := (List.map root) <$> regulars partitions

/-- The groups of a top-level slot: its partitions, then its container. -/
def slot (v : Json) : Option (List Group) := do
  return (← atMember v "partitions" roots) ++ (← atMember v "encrypted" container)

def slots (v : Json) : Option (List Group) := concat slot v.elems

/-- The groups of an object of the map: its partitions, its slots in key order, its container. -/
def entry (v : Json) : Option (List Group) := do
  return (← atMember v "partitions" roots) ++ (← atMember v "slots" slots) ++
    (← atMember v "encrypted" container)

def onlyIf (flag : Bool) (s : Option (List α)) : Option (List α) := if flag then s else some []

/-- What is left of `entry` at a position under a container or in a slot. -/
def level (underEncrypted inSlot : Bool) (v : Json) : Option (List Group) := do
  return (← onlyIf (!underEncrypted && !inSlot) (atMember v "partitions" roots)) ++
    (← onlyIf (!underEncrypted && !inSlot) (atMember v "slots" slots)) ++
    (← onlyIf (!inSlot) (atMember v "encrypted" container))

@[simp] theorem level_false_false (v : Json) : level false false v = entry v := rfl

end Collect

/-! ### Only containers have children -/

namespace Collect

variable {α : Type} {P : α → Prop}

theorem forall_concat {f : Json → Option (List α)}
    (h : ∀ v l, f v = some l → ∀ a ∈ l, P a) {vs : List Json} {l : List α}
    (hl : concat f vs = some l) : ∀ a ∈ l, P a := by
  induction vs generalizing l with
  | nil =>
    cases hl
    simp
  | cons v vs ih =>
    obtain ⟨a, b, ha, hb, rfl⟩ := append_eq_some_iff.1 hl
    exact List.forall_mem_append.2 ⟨h v a ha, ih hb⟩

theorem forall_atMember {f : Json → Option (List α)}
    (h : ∀ v l, f v = some l → ∀ a ∈ l, P a) {v : Json} {key : String} {l : List α}
    (hl : atMember v key f = some l) : ∀ a ∈ l, P a := by
  unfold atMember at hl
  split at hl
  · exact h _ _ hl
  · cases hl
    simp
  · cases hl

theorem forall_onlyIf {flag : Bool} {s : Option (List α)} (h : ∀ l, s = some l → ∀ a ∈ l, P a)
    {l : List α} (hl : onlyIf flag s = some l) : ∀ a ∈ l, P a := by
  unfold onlyIf at hl
  split_ifs at hl
  · exact h l hl
  · cases hl
    simp

end Collect

/-- LUKS parameters that come out of a checked node: the names are there, the rest is default. -/
structure IDPluks.Checked (l : IDPluks) : Prop where
  cipher : l.cipher ≠ ""
  hash : l.hash ≠ ""
  mname : l.mname ≠ ""
  version : l.version = 2
  headerSizeBytes : l.headerSizeBytes = none

/-- A group with children is that of a container, and its children are no containers. -/
structure Group.Proper (g : Group) : Prop where
  head : g.children ≠ [] → g.head.isCryptContainer
  children : ∀ p ∈ g.children, p.luks = none
  luks : ∀ l, g.head.luks = some l → l.Checked

theorem validateStringKeys_ok {luks : Json} {keys : List String}
    (h : Validation.validateStringKeys luks keys = .ok none) :
    ∀ key ∈ keys, ∃ s, luks.get key = .ok (.str s) ∧ s ≠ "" := by
  induction keys with
  | nil => simp
  | cons key keys ih =>
    simp only [Validation.validateStringKeys, bind_eq_ok_iff] at h
    obtain ⟨v, hv, b, -, h⟩ := h
    split_ifs at h with hs
    · cases h
    have hstr : v.isString := by
      cases hv : v.isString <;> simp_all
    cases v with
    | str s =>
      simp only [Json.asString, ok_bind] at h
      split_ifs at h with he
      · cases h
      · exact List.forall_mem_cons.2 ⟨⟨s, hv, he⟩, ih h⟩
    | _ => cases hstr

/-- Where a validation finds no error, none of its checks has failed. -/
theorem held_of_ok {c : Prop} [Decidable c] {msg : String} {rest : Except Exn NavResult}
    {nr : NavResult} (h : (if c then pure (NavResult.fail msg) else rest) = .ok nr)
    (hn : nr.iserror = false) : ¬ c ∧ rest = .ok nr := by
  split_ifs at h with hc
  · obtain rfl := pure_eq_ok_iff.1 h
    simp at hn
  · exact ⟨hc, h⟩

theorem passed_of_ok {c : Prop} [Decidable c] {msg : String} {rest : Except Exn NavResult}
    {nr : NavResult} (h : (if c then pure (NavResult.fail msg) else rest) = .ok nr)
    (hn : nr.iserror = false) : rest = .ok nr := (held_of_ok h hn).2

/-- The LUKS object of a container that passes its checks, with its key size. -/
structure LuksObject (node luks : Json) (keySize : ℤ) : Prop where
  object : node.get "luks2" = .ok luks
  key : ∃ v, luks.get "key_size" = .ok v ∧ v.isInt ∧ v.asInt = .ok keySize
  bits : keySize % 2 ^ 32 % 8 = 0
  strings : ∀ key ∈ ["cipher", "hash", "mname", "etype"], ∃ s, luks.get key = .ok (.str s) ∧ s ≠ ""
  etype : ∃ s, luks.get "etype" = .ok (.str s) ∧ (s = "raw" ∨ s = "partitioned")

theorem validateLUKS_ok {node : Json} {nr : NavResult} (h : Validation.validateLUKS node = .ok nr)
    (hn : nr.iserror = false) : ∃ luks keySize, LuksObject node luks keySize := by
  rw [Validation.validateLUKS] at h
  replace h := passed_of_ok h hn
  obtain ⟨b, -, h⟩ := bind_eq_ok_iff.1 h
  replace h := passed_of_ok h hn
  obtain ⟨luks, hluks, h⟩ := bind_eq_ok_iff.1 h
  obtain ⟨present, -, h⟩ := bind_eq_ok_iff.1 h
  obtain ⟨v, hv, h⟩ := bind_eq_ok_iff.1 h
  obtain ⟨hint, h⟩ := held_of_ok h hn
  have hint : present ∧ v.isInt := by simpa using hint
  obtain ⟨r, hr, h⟩ := bind_eq_ok_iff.1 h
  cases r with
  | some msg =>
    obtain rfl := pure_eq_ok_iff.1 h
    simp at hn
  | none =>
    have hstrings := validateStringKeys_ok hr
    obtain ⟨etype, hetype, -⟩ := hstrings "etype" (by simp)
    simp only [hetype, ok_bind, Json.asString] at h
    obtain ⟨htype, h⟩ := held_of_ok h hn
    simp only [hv, ok_bind] at h
    obtain ⟨keySize, hkey, h⟩ := bind_eq_ok_iff.1 h
    obtain ⟨hbits, -⟩ := held_of_ok h hn
    exact ⟨luks, keySize, hluks, ⟨v, hv, hint.2, hkey⟩, by simpa using hbits, hstrings,
      etype, hetype, by tauto⟩

/-- What a container carries over from its LUKS object. -/
structure LuksRead (node : Json) (k : IDPluks) : Prop where
  checked : k.Checked
  object : ∃ luks keySize, LuksObject node luks keySize ∧ k.keySize = (keySize % 2 ^ 64).toNat ∧
    luks.get "cipher" = .ok (.str k.cipher) ∧ luks.get "hash" = .ok (.str k.hash) ∧
    luks.get "mname" = .ok (.str k.mname)

/-- A container that passes its checks has the parameters of its LUKS object. -/
theorem luksRead_createEncryptedPartition {node : Json} {c : Partition}
    (hok : Collect.containerOk node = .ok true) (h : createEncryptedPartition node = .ok c) :
    ∀ k, c.luks = some k → LuksRead node k := by
  simp only [Collect.containerOk, bind_eq_ok_iff] at hok
  obtain ⟨nr, hv, hok⟩ := hok
  have hn : nr.iserror = false := by
    cases hn : nr.iserror with
    | true => simp [hn] at hok
    | false => rfl
  obtain ⟨luks, keySize, hobj⟩ := validateLUKS_ok hv hn
  obtain ⟨v, hkey, -, hsize⟩ := hobj.key
  obtain ⟨c', hc', hcne⟩ := hobj.strings "cipher" (by simp)
  obtain ⟨h', hh', hhne⟩ := hobj.strings "hash" (by simp)
  obtain ⟨m', hm', hmne⟩ := hobj.strings "mname" (by simp)
  simp only [createEncryptedPartition, hobj.object, hkey, hsize, ok_bind, hc', hh', hm',
    Json.asString, bind_eq_ok_iff] at h
  obtain ⟨et, -, lab, -, uu, -, b, -, h⟩ := h
  rintro k hk
  have hread : k.Checked ∧ k.keySize = (keySize % 2 ^ 64).toNat ∧ k.cipher = c' ∧ k.hash = h' ∧
      k.mname = m' := by
    cases b with
    | true =>
      simp only [if_true, bind_eq_ok_iff, pure_eq_ok_iff] at h
      obtain ⟨_, -, _, -, rfl⟩ := h
      cases hk
      exact ⟨⟨hcne, hhne, hmne, rfl, rfl⟩, rfl, rfl, rfl, rfl⟩
    | false =>
      obtain rfl := pure_eq_ok_iff.1 h
      cases hk
      exact ⟨⟨hcne, hhne, hmne, rfl, rfl⟩, rfl, rfl, rfl, rfl⟩
  obtain ⟨hchecked, hkeySize, rfl, rfl, rfl⟩ := hread
  exact ⟨hchecked, luks, keySize, hobj, hkeySize, hc', hh', hm'⟩

theorem luks_numberFrom {parent : Option ℕ} {n : ℕ} {ps : List Partition}
    (hc : ∀ p ∈ ps, p.luks = none) {p : Partition} (h : p ∈ numberFrom parent n ps) :
    p.luks = none := by
  induction ps generalizing n with
  | nil => simp [numberFrom] at h
  | cons q ps ih =>
    rw [List.forall_mem_cons] at hc
    rcases List.mem_cons.1 h with rfl | h
    · exact hc.1
    · exact ih hc.2 h

theorem luks_readRegularPartition {v : Json} {p : Partition} (h : readRegularPartition v = .ok p) :
    p.luks = none := by
  simp only [readRegularPartition, bind, Except.bind, pure, Except.pure] at h
  repeat' split at h
  all_goals cases h
  all_goals rfl

theorem luks_regulars {v : Json} {ps : List Partition} (h : Collect.regulars v = some ps) :
    ∀ p ∈ ps, p.luks = none := by
  refine Collect.forall_concat (fun w l hl => ?_) h
  simp only [Collect.regular, Option.bind_eq_bind, Option.bind_eq_some_iff,
    toOption_eq_some_iff] at hl
  obtain ⟨nr, -, hl⟩ := hl
  split_ifs at hl
  · simp at hl
  · simp only [Option.bind_eq_some_iff, toOption_eq_some_iff, pure, Option.some.injEq] at hl
    obtain ⟨q, hq, rfl⟩ := hl
    simp [luks_readRegularPartition hq]

theorem luks_children {node : Json} {ps : List Partition} (h : Collect.children node = some ps) :
    ∀ p ∈ ps, p.luks = none := by
  obtain ⟨a, b, ha, hb, rfl⟩ := append_eq_some_iff.1 h
  refine List.forall_mem_append.2 ⟨?_, Collect.forall_atMember (fun _ _ => luks_regulars) hb⟩
  exact Collect.forall_atMember (fun _ _ => Collect.forall_concat fun _ _ =>
    Collect.forall_atMember fun _ _ => luks_regulars) ha

theorem luks_createEncryptedPartition {node : Json} {c : Partition}
    (h : createEncryptedPartition node = .ok c) : c.luks.isSome ∧ c.parent = none := by
  simp only [createEncryptedPartition, bind, Except.bind, pure, Except.pure] at h
  repeat' split at h
  all_goals cases h
  all_goals exact ⟨rfl, rfl⟩

/-- A container that is accepted is one group: itself and its children. -/
theorem container_eq_some {node : Json} {gs : List Group} (h : Collect.container node = some gs) :
    ∃ c ps, Collect.containerOk node = .ok true ∧ createEncryptedPartition node = .ok c ∧
      Collect.children node = some ps ∧ gs = [⟨c, ps⟩] := by
  simp only [Collect.container, Option.bind_eq_bind, Option.bind_eq_some_iff,
    toOption_eq_some_iff] at h
  obtain ⟨ok, hok, h⟩ := h
  split_ifs at h with hb
  · simp at h
  · simp only [Option.bind_eq_some_iff, toOption_eq_some_iff, pure, Option.some.injEq] at h
    obtain ⟨c, hc, ps, hps, rfl⟩ := h
    obtain rfl : ok = true := by simpa using hb
    exact ⟨c, ps, hok, hc, hps, rfl⟩

theorem proper_container {node : Json} {gs : List Group} (h : Collect.container node = some gs) :
    ∀ g ∈ gs, g.Proper := by
  obtain ⟨c, ps, hok, hc, hps, rfl⟩ := container_eq_some h
  rintro g hg
  obtain rfl := List.mem_singleton.1 hg
  exact ⟨fun _ => (luks_createEncryptedPartition hc).1, luks_children hps,
    fun k hk => (luksRead_createEncryptedPartition hok hc k hk).checked⟩

theorem proper_roots {v : Json} {gs : List Group} (h : Collect.roots v = some gs) :
    ∀ g ∈ gs, g.Proper := by
  obtain ⟨ps, hps, rfl⟩ := Option.map_eq_some_iff.1 h
  rintro g hg
  obtain ⟨p, hp, rfl⟩ := List.mem_map.1 hg
  refine ⟨fun h => (h rfl).elim, by simp [Collect.root], fun l hl => ?_⟩
  rw [Collect.root, luks_regulars hps p hp] at hl
  cases hl

theorem proper_slots {v : Json} {gs : List Group} (h : Collect.slots v = some gs) :
    ∀ g ∈ gs, g.Proper := by
  refine Collect.forall_concat (fun slot l hl => ?_) h
  obtain ⟨a, b, ha, hb, rfl⟩ := append_eq_some_iff.1 hl
  exact List.forall_mem_append.2 ⟨Collect.forall_atMember (fun _ _ => proper_roots) ha,
    Collect.forall_atMember (fun _ _ => proper_container) hb⟩

theorem proper_level {u s : Bool} {v : Json} {gs : List Group}
    (h : Collect.level u s v = some gs) : ∀ g ∈ gs, g.Proper := by
  simp only [Collect.level, Option.bind_eq_bind, Option.bind_eq_some_iff, pure,
    Option.some.injEq] at h
  obtain ⟨a, ha, b, hb, c, hc, rfl⟩ := h
  simp only [List.forall_mem_append]
  exact ⟨⟨Collect.forall_onlyIf (fun _ => Collect.forall_atMember fun _ _ => proper_roots) ha,
    Collect.forall_onlyIf (fun _ => Collect.forall_atMember fun _ _ => proper_slots) hb⟩,
    Collect.forall_onlyIf (fun _ => Collect.forall_atMember fun _ _ => proper_container) hc⟩

/-- A numbered partition is the head of a group, without a parent, or one of its children. -/
theorem mem_numberGroups {n : ℕ} {gs : List Group} {p : Partition} (h : p ∈ numberGroups n gs) :
    ∃ g ∈ gs, p.luks = g.head.luks ∧ p.parent = none ∨
      ∃ parent k, p ∈ numberFrom parent k g.children := by
  induction gs generalizing n with
  | nil => simp [numberGroups] at h
  | cons g gs ih =>
    rcases List.mem_append.1 h with h | h
    · refine ⟨g, List.mem_cons_self, ?_⟩
      rcases List.mem_cons.1 h with rfl | h
      · exact .inl ⟨rfl, rfl⟩
      · exact .inr ⟨_, _, h⟩
    · obtain ⟨g', hg', hp⟩ := ih h
      exact ⟨g', List.mem_cons_of_mem g hg', hp⟩

/-- A partition with a parent comes from the children of a group. -/
theorem luks_numberGroups {n : ℕ} {gs : List Group} (hg : ∀ g ∈ gs, g.Proper) {p : Partition}
    (h : p ∈ numberGroups n gs) (hp : p.parent ≠ none) : p.luks = none := by
  obtain ⟨g, hmem, ⟨-, hnone⟩ | ⟨parent, k, hchild⟩⟩ := mem_numberGroups h
  · exact (hp hnone).elim
  · exact luks_numberFrom (hg g hmem).children hchild

theorem checked_numberGroups {n : ℕ} {gs : List Group} (hg : ∀ g ∈ gs, g.Proper) {p : Partition}
    (h : p ∈ numberGroups n gs) {l : IDPluks} (hl : p.luks = some l) : l.Checked := by
  obtain ⟨g, hmem, ⟨hhead, -⟩ | ⟨parent, k, hchild⟩⟩ := mem_numberGroups h
  · exact (hg g hmem).luks l (hhead ▸ hl)
  · rw [luks_numberFrom (hg g hmem).children hchild] at hl
    cases hl

/-! ### Steps that emit -/

namespace NavStep

/-- The output of a step that neither raises nor reports an error. -/
def clean (f : NavStep) (acc : NavAcc) : Option NavAcc :=
  match f acc with
  | .ok (nr, acc') => if nr.iserror then none else some acc'
  | .error _ => none

theorem clean_eq_some_iff {f : NavStep} {acc a : NavAcc} :
    f.clean acc = some a ↔ ∃ nr, f acc = .ok (nr, a) ∧ nr.iserror = false := by
  unfold clean
  rcases f acc with e | ⟨nr, b⟩
  · simp
  · cases hn : nr.iserror <;> simp [hn, and_comm]

/-- Extending the output is a monoid action of the lists. -/
structure Extension {α : Type} (ext : NavAcc → List α → NavAcc) : Prop where
  nil : ∀ acc, ext acc [] = acc
  append : ∀ acc l m, ext (ext acc l) m = ext acc (l ++ m)

theorem extension_extendWith (parent : Option ℕ) : Extension (NavAcc.extendWith parent) where
  nil acc := by simp [NavAcc.extendWith, numberFrom]
  append acc l m := by
    simp [NavAcc.extendWith, numberFrom_append, List.append_assoc, Nat.add_assoc]

theorem extension_extend : Extension NavAcc.extend where
  nil acc := by simp [NavAcc.extend, numberGroups]
  append acc l m := by
    simp [NavAcc.extend, numberGroups_append, List.append_assoc, Nat.add_assoc]

/-- The step succeeds exactly when `s` has a value, and extends its output with it. -/
def Emits {α : Type} (ext : NavAcc → List α → NavAcc) (f : NavStep) (s : Option (List α)) : Prop :=
  ∀ acc, f.clean acc = s.map (ext acc)

theorem clean_append (f g : NavStep) (acc : NavAcc) :
    (f.append g).clean acc = (f.clean acc).bind g.clean := by
  unfold clean append
  rcases hf : f acc with e | ⟨r, a⟩
  · rfl
  · rcases hg : g a with e | ⟨t, b⟩
    · by_cases hr : r.iserror <;> simp [bind, Except.bind, hg, hr]
    · by_cases hr : r.iserror <;> simp [bind, Except.bind, pure, Except.pure, hg, hr]

section

variable {α : Type} {ext : NavAcc → List α → NavAcc} {f g : NavStep} {s t : Option (List α)}

theorem Emits.append (he : Extension ext) (hf : f.Emits ext s) (hg : g.Emits ext t) :
    (f.append g).Emits ext (do return (← s) ++ (← t)) := by
  intro acc
  rw [clean_append, hf acc]
  cases s with
  | none => rfl
  | some l =>
    rw [Option.map_some, Option.bind_some, hg]
    cases t with
    | none => rfl
    | some m => simp [he.append]

theorem emits_skip (he : Extension ext) : Emits ext (fun acc => return ({}, acc)) (some []) := by
  intro acc
  simp [clean, pure, Except.pure, he.nil]

theorem Emits.atMember (he : Extension ext) {h : Json → NavStep} {u : Json → Option (List α)}
    (v : Json) (key : String) (hh : ∀ w, (h w).Emits ext (u w)) :
    (NavStep.when (v.isMember key) (.onMember v key h)).Emits ext (Collect.atMember v key u) := by
  intro acc
  unfold Collect.atMember clean NavStep.when onMember Json.isMember Json.get
  rcases hv : v.find key with e | _ | w
  · rfl
  · simp [bind, Except.bind, Functor.map, Except.map, pure, Except.pure, he.nil]
  · simpa [hv, bind, Except.bind, Functor.map, Except.map, clean] using hh w acc

/-- The guarded form: `flag` is known before the member is looked up, in an object. -/
theorem Emits.atMember_obj (he : Extension ext) {h : Json → NavStep} {u : Json → Option (List α)}
    (flag : Bool) (ms : List (String × Json)) (key : String) (hh : ∀ w, (h w).Emits ext (u w)) :
    (NavStep.when (return flag && (← (Json.obj ms).isMember key))
      (.onMember (.obj ms) key h)).Emits ext
      (Collect.onlyIf flag (Collect.atMember (.obj ms) key u)) := by
  cases flag with
  | true =>
    have := Emits.atMember he (.obj ms) key hh
    simpa [Collect.onlyIf, bind, Except.bind, pure, Except.pure] using this
  | false =>
    intro acc
    simp [Collect.onlyIf, clean, NavStep.when, bind, Except.bind, pure, Except.pure, he.nil]

end

end NavStep

/-! ### Every step of the navigator emits -/

open NavStep

theorem processRegularList_emits (parent : Option Partition) (ps : List Json) :
    Emits (NavAcc.extendWith (parent.map (·.order))) (processRegularList parent ps)
      (Collect.concat Collect.regular ps) := by
  induction ps with
  | nil => exact emits_skip (extension_extendWith _)
  | cons p ps ih =>
    intro acc
    rw [Collect.concat]
    unfold clean processRegularList
    rcases hv : Validation.validateRegularPartition p with e | nr
    · simp [Collect.regular, hv, Except.toOption, bind, Except.bind]
    by_cases hn : nr.iserror
    · simp [Collect.regular, hv, hn, Except.toOption, bind, Except.bind, pure, Except.pure]
    rcases hr : readRegularPartition p with e | q
    · simp [Collect.regular, hv, hn, hr, Except.toOption, bind, Except.bind]
    have hreg : Collect.regular p = some [q] := by
      simp [Collect.regular, hv, hn, hr, Except.toOption]
    have hrest := ih (acc.push { q with parent := parent.map (·.order) })
    unfold clean at hrest
    simp only [bind, Except.bind, hn, Bool.false_eq_true, if_false, hrest, hreg]
    cases Collect.concat Collect.regular ps with
    | none => rfl
    | some qs =>
      simp [NavAcc.extendWith, NavAcc.push, numberFrom, pure]
      omega

theorem processRegularPartitions_emits (parent : Option Partition) (partitions : Json) :
    Emits (NavAcc.extendWith (parent.map (·.order))) (processRegularPartitions parent partitions)
      (Collect.regulars partitions) :=
  processRegularList_emits parent partitions.elems

theorem numberFrom_none (n : ℕ) (ps : List Partition) :
    numberFrom none n ps = numberGroups n (ps.map Collect.root) := by
  induction ps generalizing n with
  | nil => rfl
  | cons p ps ih => simp [numberFrom, numberGroups, ih, Group.number, Group.count, Collect.root]

theorem extendWith_none (acc : NavAcc) (ps : List Partition) :
    acc.extendWith none ps = acc.extend (ps.map Collect.root) := by
  have hc : countGroups (ps.map Collect.root) = ps.length := by
    induction ps with
    | nil => rfl
    | cons p ps ih => simp [ih, Group.count, Collect.root, Nat.add_comm]
  simp [NavAcc.extendWith, NavAcc.extend, numberFrom_none, hc]

theorem processRegularPartitions_emits_roots (partitions : Json) :
    Emits NavAcc.extend (processRegularPartitions none partitions) (Collect.roots partitions) := by
  intro acc
  rw [processRegularPartitions_emits none partitions acc, Collect.roots]
  cases Collect.regulars partitions with
  | none => rfl
  | some ps => simp [extendWith_none]

theorem processSlotList_emits {α : Type} {ext : NavAcc → List α → NavAcc} (he : Extension ext)
    {processEncrypted : Option (Option Partition → Json → NavStep)} {parent : Option Partition}
    {r c : Json → Option (List α)}
    (hr : ∀ v, Emits ext (processRegularPartitions parent v) (r v))
    (hc : ∀ slot, Emits ext (processSlotEncrypted processEncrypted parent slot) (c slot))
    (slots : List Json) :
    Emits ext (processSlotList processEncrypted parent slots)
      (Collect.concat (fun slot => do
        return (← Collect.atMember slot "partitions" r) ++ (← c slot)) slots) := by
  induction slots with
  | nil => exact emits_skip he
  | cons slot slots ih =>
    exact ((Emits.atMember he slot "partitions" hr).append he (hc slot)).append he ih

/-- The slots of a container hold regular partitions only. -/
theorem processSlots_emits_inner (parent : Option Partition) (slots : Json) :
    Emits (NavAcc.extendWith (parent.map (·.order))) (processSlots none parent slots)
      (Collect.concat Collect.innerSlot slots.elems) := by
  have he := extension_extendWith (parent.map (·.order))
  have hc (slot : Json) : Emits (NavAcc.extendWith (parent.map (·.order)))
      (processSlotEncrypted none parent slot) (some []) := emits_skip he
  have := processSlotList_emits he (processRegularPartitions_emits parent) hc slots.elems
  have hinner : (fun slot => do
      return (← Collect.atMember slot "partitions" Collect.regulars) ++ (← some [])) =
      Collect.innerSlot := by
    funext slot
    unfold Collect.innerSlot
    cases Collect.atMember slot "partitions" Collect.regulars <;> simp
  rw [hinner] at this
  exact this

theorem extractPartitions_emits (container : Partition) (node : Json) :
    Emits (NavAcc.extendWith (some container.order))
      (.when (node.isMember "partitions") (extractPartitions (some container) node))
      (Collect.atMember node "partitions" Collect.regulars) := by
  intro acc
  rw [← Emits.atMember (extension_extendWith (some container.order)) node "partitions"
    (processRegularPartitions_emits (some container)) acc]
  unfold clean NavStep.when NavStep.onMember extractPartitions Json.isMember
  rcases node.find "partitions" with e | _ | w <;>
    simp [bind, Except.bind, Functor.map, Except.map]

/-- A container is emitted as one group. -/
theorem processEncryptedNode_emits (node : Json) :
    Emits NavAcc.extend (processEncryptedNode none node) (Collect.container node) := by
  intro acc
  cases hobj : node.isObject with
  | false =>
    simp [clean, processEncryptedNode, Collect.container, Collect.containerOk,
      Validation.validateLUKS, hobj, bind, Except.bind, pure, Except.pure, Except.toOption]
  | true =>
    obtain ⟨ms, rfl⟩ := Json.isObject_iff.1 hobj
    unfold clean processEncryptedNode Collect.container Collect.containerOk
    simp only [Option.any_none, Bool.false_eq_true, if_false, Json.isMember_obj, Json.get_obj]
    rcases hv : Validation.validateLUKS (.obj ms) with e | nr
    · rfl
    by_cases hn : nr.iserror
    · simp [hn, bind, Except.bind, pure, Except.pure, Except.toOption]
    simp only [bind, Except.bind, hn, Bool.false_eq_true, if_false]
    split_ifs with hx hs
    · simp [pure, Except.pure, Except.toOption]
    · rw [Bool.not_eq_true'] at hs
      simp only [pure, Except.pure, Except.toOption, hs, NavResult.iserror_error]
      rfl
    rw [Bool.not_eq_true', Bool.not_eq_false] at hs
    simp only [pure, Except.pure, Except.toOption, hs]
    rcases hc : createEncryptedPartition (.obj ms) with e | c
    · rfl
    have hch := (Emits.atMember (extension_extendWith (some (acc.num + 1))) (.obj ms) "slots"
      (processSlots_emits_inner (some { c with order := acc.num + 1 }))).append
      (extension_extendWith (some (acc.num + 1)))
      (extractPartitions_emits { c with order := acc.num + 1 } (.obj ms)) (acc.push c)
    unfold clean at hch
    simp only [Json.isMember_obj] at hch
    simp only [hch]
    change (Collect.children (.obj ms)).map _ = _
    cases Collect.children (.obj ms) with
    | none => rfl
    | some ps =>
      simp [NavAcc.extendWith, NavAcc.extend, NavAcc.push, numberGroups, Group.number,
        Group.count, (luks_createEncryptedPartition hc).2]
      omega

theorem processSlots_emits (slots : Json) :
    Emits NavAcc.extend (processSlots (some processEncryptedNode) none slots)
      (Collect.slots slots) := by
  have hc (slot : Json) : Emits NavAcc.extend
      (processSlotEncrypted (some processEncryptedNode) none slot)
      (Collect.atMember slot "encrypted" Collect.container) :=
    Emits.atMember extension_extend slot "encrypted" processEncryptedNode_emits
  exact processSlotList_emits extension_extend processRegularPartitions_emits_roots hc slots.elems

/-- A level of the map yields its partitions, its slots and its container, as far as its position
leaves them to it. -/
theorem objectPartitions_emits (underEncrypted inSlot : Bool) (ms : List (String × Json)) :
    Emits NavAcc.extend (objectPartitions underEncrypted inSlot (.obj ms))
      (Collect.level underEncrypted inSlot (.obj ms)) := by
  have hparts := Emits.atMember_obj extension_extend (!underEncrypted && !inSlot) ms "partitions"
    processRegularPartitions_emits_roots
  have hslots := Emits.atMember_obj extension_extend (!underEncrypted && !inSlot) ms "slots"
    processSlots_emits
  have hcont := Emits.atMember_obj extension_extend (!inSlot) ms "encrypted"
    processEncryptedNode_emits
  intro acc
  rw [objectPartitions, (hparts.append extension_extend hslots).append extension_extend hcont acc]
  simp only [Collect.level, bind_assoc, pure_bind]

end RpiFastbootd
