import RpiFastbootd.Idp.Nav
import RpiFastbootd.Lib.Text

/-!
# The walk without the stack

The stack machine of the navigator is a recursion over the JSON tree.  What `getPartitions` and
`stepIn` read off the stack at a node is three bits about the path to it (`Place`): it goes through
a key `encrypted`, some object on it is named as a slot, its last step entered the key `slots` of
an object.  `walk` recurses with these bits, and `foreachPartition_eq_walk` says that the machine
computes it, for every document and every callback, within the calls its bound allows.

A level ends at its first scalar: `walkMembers` and `walkElems` stop there, as `stepIn` does.
-/

namespace RpiFastbootd

/-- What the stack says about the position of a node. -/
structure Place where
  underEncrypted : Bool := false
  inSlot : Bool := false
  isSlots : Bool := false
  deriving DecidableEq

namespace Place

/-- The position of the value `v` of the member `key` of an object. -/
def member (p : Place) (key : String) (v : Json) : Place where
  underEncrypted := p.underEncrypted || key == "encrypted"
  inSlot := p.inSlot || (v.isObject && p.isSlots && key != "")
  isSlots := key == "slots"

/-- The position of an element of an array. -/
def elem (p : Place) : Place := { p with isSlots := false }

/-- The top frame was entered through the key `slots` of an object. -/
def slotsBelow : List NavFrame → Bool
  | parent :: _ => parent.node.isObject && parent.currentKey == some "slots"
  | [] => false

@[simp] theorem slotsBelow_cons (f : NavFrame) (below : List NavFrame) :
    slotsBelow (f :: below) = (f.node.isObject && f.currentKey == some "slots") := rfl

/-- The position a new frame gets from its slot key and the frames below it. -/
def ofStack (slotKey : String) (below : List NavFrame) : Place where
  underEncrypted := below.any fun f => f.currentKey == some "encrypted"
  inSlot := slotKey != "" || stackInSlot below
  isSlots := slotsBelow below

end Place

section Walk

variable {σ : Type} (func : Partition → σ → Except LoadError σ)

/-- `getPartitions` and the callbacks at an object. -/
def visitObject (p : Place) (node : Json) (st : ℕ × σ) : Except (LoadError × σ) (ℕ × σ) := do
  let (nr, acc) ← leaving st.2 (raises
    (objectPartitions p.underEncrypted p.inSlot node { num := st.1 }))
  if nr.iserror then throw (.refused "", st.2)
  else return (acc.num, ← visitAll func acc.result st.2)

mutual
/-- The walk below a node: the order number and the accumulator it leaves. -/
def walk (p : Place) : Json → ℕ × σ → Except (LoadError × σ) (ℕ × σ)
  | .obj ms, st => do walkMembers p ms (← visitObject func p (.obj ms) st)
  | .arr xs, st => walkElems p xs st
  | _, st => return st

def walkMembers (p : Place) : List (String × Json) → ℕ × σ → Except (LoadError × σ) (ℕ × σ)
  | [], st => return st
  | (key, v) :: ms, st =>
    if v.isObject || v.isArray then do walkMembers p ms (← walk (p.member key v) v st)
    else return st

def walkElems (p : Place) : List Json → ℕ × σ → Except (LoadError × σ) (ℕ × σ)
  | [], st => return st
  | v :: xs, st =>
    if v.isObject || v.isArray then do walkElems p xs (← walk p.elem v st)
    else return st
end

/-! ### Positions and frames -/

/-- A frame on `node` whose first `i` children have been entered. -/
abbrev frameAt (node : Json) (slotKey : String) (i : ℕ) : NavFrame :=
  { node, keys := frameKeys node, childIdx := i, slotKey }

theorem currentKey_frameAt {node : Json} {i : ℕ} {slotKey key : String}
    (h : (frameKeys node)[i]? = some key) :
    (frameAt node slotKey (i + 1)).currentKey = some key := by
  simpa [NavFrame.currentKey] using h

theorem childSlotKey_obj (ms : List (String × Json)) (i : ℕ) (slotKey key : String)
    (below : List NavFrame) :
    childSlotKey (frameAt (.obj ms) slotKey i) below key =
      if Place.slotsBelow below && key != "" then key else slotKey := by
  cases below with
  | nil => simp [childSlotKey, Place.slotsBelow]
  | cons g below =>
    cases hg : Place.slotsBelow (g :: below) <;> by_cases he : key = "" <;>
      simp_all [childSlotKey, Json.isObject]

theorem childSlotKey_arr (xs : List Json) (i : ℕ) (slotKey key : String)
    (below : List NavFrame) : childSlotKey (frameAt (.arr xs) slotKey i) below key = slotKey := by
  cases below <;> simp [childSlotKey, Json.isObject]

/-- The position of a member's frame, from that of its object. -/
theorem ofStack_member {ms : List (String × Json)} {key : String} {i : ℕ}
    (hk : (frameKeys (.obj ms))[i]? = some key) (slotKey : String) (below : List NavFrame)
    (vs : List (String × Json)) :
    Place.ofStack (childSlotKey (frameAt (.obj ms) slotKey (i + 1)) below key)
        (frameAt (.obj ms) slotKey (i + 1) :: below) =
      (Place.ofStack slotKey below).member key (.obj vs) := by
  simp only [Place.ofStack, Place.member, Place.mk.injEq, List.any_cons, currentKey_frameAt hk,
    stackInSlot, Place.slotsBelow_cons, childSlotKey_obj]
  refine ⟨by simp [Bool.or_comm], ?_, by simp [Json.isObject]⟩
  by_cases he : key = ""
  · simp [he]
  · cases Place.slotsBelow below <;> simp [he, Json.isObject, Bool.or_comm]

theorem ofStack_member_arr {ms : List (String × Json)} {key : String} {i : ℕ}
    (hk : (frameKeys (.obj ms))[i]? = some key) (slotKey : String) (below : List NavFrame)
    (xs : List Json) :
    Place.ofStack slotKey (frameAt (.obj ms) slotKey (i + 1) :: below) =
      (Place.ofStack slotKey below).member key (.arr xs) := by
  simp only [Place.ofStack, Place.member, Place.mk.injEq, List.any_cons, currentKey_frameAt hk,
    stackInSlot, Place.slotsBelow_cons]
  exact ⟨by simp [Bool.or_comm], by simp [Json.isObject], by simp [Json.isObject]⟩

/-- The position of an element's frame, from that of its array: an index is no key of the map. -/
theorem ofStack_elem {xs : List Json} {i : ℕ} (hi : i < xs.length) (slotKey : String)
    (below : List NavFrame) :
    Place.ofStack slotKey (frameAt (.arr xs) slotKey (i + 1) :: below) =
      (Place.ofStack slotKey below).elem := by
  have hk : (frameKeys (.arr xs))[i]? = some i.repr := by simp [frameKeys, indexKeys, hi]
  have he : i.repr ≠ "encrypted" := repr_ne (c := 'e') (by decide) (by decide)
  simp only [Place.ofStack, Place.elem, Place.mk.injEq, List.any_cons, currentKey_frameAt hk,
    stackInSlot, Place.slotsBelow_cons]
  exact ⟨by simp [he], by simp, by simp [Json.isObject]⟩

/-! ### The machine computes the walk -/

/-- What a caller sees of a finished level: the frames below it and the results. -/
def WalkState.leave (st : WalkState σ) : List NavFrame × ℕ × σ :=
  (st.stack.tail, st.order, st.acc)

/-- A level of the machine on the frame `f`, with frames `below`, does what the walk `w` does and
leaves the frames below alone. -/
def Realizes (below : List NavFrame) (m : Except (LoadError × σ) (WalkState σ))
    (w : Except (LoadError × σ) (ℕ × σ)) : Prop :=
  WalkState.leave <$> m = (fun st => (below, st)) <$> w

theorem realizes_error_iff {below : List NavFrame} {e : LoadError × σ}
    {w : Except (LoadError × σ) (ℕ × σ)} : Realizes below (.error e) w ↔ w = .error e := by
  cases w <;> simp [Realizes, Functor.map, Except.map, eq_comm]

theorem realizes_ok_iff {below : List NavFrame} {st : WalkState σ}
    {w : Except (LoadError × σ) (ℕ × σ)} :
    Realizes below (.ok st) w ↔ st.stack.tail = below ∧ w = .ok (st.order, st.acc) := by
  cases w <;> simp [Realizes, Functor.map, Except.map, WalkState.leave, eq_comm]

theorem stepOut_of_tail {stack : List NavFrame} {f : NavFrame} {below : List NavFrame}
    (h : stack.tail = f :: below) : stepOut stack = f :: below := by
  obtain _ | ⟨x, _ | ⟨y, stack⟩⟩ := stack
  · cases h
  · cases h
  · simpa [stepOut] using h

theorem stepLoop_stop {fuel : ℕ} {st : WalkState σ} {f : NavFrame} {below : List NavFrame}
    (h : stepIn st.stack = (false, f :: below)) :
    Realizes below (stepLoop func (fuel + 1) st) (.ok (st.order, st.acc)) := by
  rw [stepLoop, h]
  exact realizes_ok_iff.2 ⟨rfl, rfl⟩

theorem stepLoop_enter {fuel : ℕ} {st : WalkState σ} {child parent : NavFrame}
    {below : List NavFrame} {w : Except (LoadError × σ) (ℕ × σ)}
    {w' : ℕ × σ → Except (LoadError × σ) (ℕ × σ)}
    (hs : stepIn st.stack = (true, child :: parent :: below))
    (h : Realizes (parent :: below)
      (foreachPartitionImpl func fuel { st with stack := child :: parent :: below }) w)
    (h' : ∀ r, Realizes below (stepLoop func fuel ⟨parent :: below, r.1, r.2⟩) (w' r)) :
    Realizes below (stepLoop func (fuel + 1) st) (w >>= w') := by
  rw [stepLoop]
  simp only [hs]
  cases hc : foreachPartitionImpl func fuel { st with stack := child :: parent :: below } with
  | error e =>
    rw [hc, realizes_error_iff] at h
    subst h
    exact realizes_error_iff.2 rfl
  | ok st' =>
    rw [hc, realizes_ok_iff] at h
    obtain ⟨ht, rfl⟩ := h
    have := h' (st'.order, st'.acc)
    rw [← stepOut_of_tail ht] at this
    exact this

/-- Reading a level off the stack and calling back is `visitObject` at its position. -/
theorem foreach_object {fuel : ℕ} {ms : List (String × Json)} {slotKey : String}
    {below : List NavFrame} {order : ℕ} {acc : σ} {w' : ℕ × σ → Except (LoadError × σ) (ℕ × σ)}
    (h : ∀ r : ℕ × σ,
      Realizes below (stepLoop func fuel ⟨frameAt (.obj ms) slotKey 0 :: below, r.1, r.2⟩) (w' r)) :
    Realizes below
      (foreachPartitionImpl func (fuel + 1) ⟨frameAt (.obj ms) slotKey 0 :: below, order, acc⟩)
      (visitObject func (.ofStack slotKey below) (.obj ms) (order, acc) >>= w') := by
  rw [foreachPartitionImpl]
  simp only [getPartitions, visitObject, Json.isObject, if_true]
  change Realizes below (leaving acc
    (raises (objectPartitions (Place.ofStack slotKey below).underEncrypted
      (Place.ofStack slotKey below).inSlot (.obj ms) { num := order }) >>= _) >>= _) _
  cases raises (objectPartitions (Place.ofStack slotKey below).underEncrypted
      (Place.ofStack slotKey below).inSlot (.obj ms) { num := order }) with
  | error e => exact realizes_error_iff.2 rfl
  | ok r =>
    obtain ⟨nr, out⟩ := r
    cases hn : nr.iserror with
    | true =>
      simp only [bind, Except.bind, hn, if_true, leaving]
      exact realizes_error_iff.2 rfl
    | false =>
      simp only [bind, Except.bind, hn, Bool.false_eq_true, if_false, pure, Except.pure, leaving]
      cases visitAll func out.result acc with
      | error e => exact realizes_error_iff.2 rfl
      | ok acc' => exact h (out.num, acc')

theorem foreach_not_object {fuel : ℕ} {f : NavFrame} {below : List NavFrame} {order : ℕ} {acc : σ}
    (h : f.node.isObject = false) :
    foreachPartitionImpl func (fuel + 1) ⟨f :: below, order, acc⟩ =
      stepLoop func fuel ⟨f :: below, order, acc⟩ := by
  rw [foreachPartitionImpl]
  simp [getPartitions, h, visitAll, leaving, pure, Except.pure, bind, Except.bind]

/-- The child that `stepIn` enters in an object with distinct keys. -/
theorem stepIn_obj {done rest : List (String × Json)} {key : String} {v : Json}
    (hk : ((done ++ (key, v) :: rest).map (·.1)).Pairwise (· < ·)) (slotKey : String)
    (below : List NavFrame) :
    let parent := frameAt (.obj (done ++ (key, v) :: rest)) slotKey (done.length + 1)
    stepIn (frameAt (.obj (done ++ (key, v) :: rest)) slotKey done.length :: below) =
      match v with
      | .obj vs => (true, frameAt (.obj vs) (childSlotKey parent below key) 0 :: parent :: below)
      | .arr xs => (true, frameAt (.arr xs) slotKey 0 :: parent :: below)
      | _ => (false, parent :: below) := by
  have hkey : (frameKeys (.obj (done ++ (key, v) :: rest)))[done.length]? = some key := by
    simp [frameKeys]
  have hchild : (done ++ (key, v) :: rest).lookup key = some v :=
    Json.lookup_of_mem hk (by simp)
  cases v <;> simp [stepIn, hkey, NavFrame.child, hchild]

theorem stepIn_arr (done rest : List Json) (v : Json) (slotKey : String)
    (below : List NavFrame) :
    let parent := frameAt (.arr (done ++ v :: rest)) slotKey (done.length + 1)
    stepIn (frameAt (.arr (done ++ v :: rest)) slotKey done.length :: below) =
      match v with
      | .obj vs => (true, frameAt (.obj vs) slotKey 0 :: parent :: below)
      | .arr xs => (true, frameAt (.arr xs) slotKey 0 :: parent :: below)
      | _ => (false, parent :: below) := by
  have hkey : (frameKeys (.arr (done ++ v :: rest)))[done.length]? = some done.length.repr := by
    simp [frameKeys, indexKeys]
  cases v <;> simp [stepIn, hkey, NavFrame.child, childSlotKey_arr]

mutual
theorem foreach_realizes (v : Json) (hv : v.Sorted) (fuel : ℕ) (hf : 2 * v.size ≤ fuel)
    (slotKey : String) (below : List NavFrame) (order : ℕ) (acc : σ) :
    Realizes below
      (foreachPartitionImpl func fuel ⟨frameAt v slotKey 0 :: below, order, acc⟩)
      (walk func (.ofStack slotKey below) v (order, acc)) := by
  have hpos := v.size_pos
  obtain ⟨fuel, rfl⟩ : ∃ n, fuel = n + 1 := ⟨fuel - 1, by omega⟩
  cases v with
  | obj ms =>
    rw [walk]
    apply foreach_object
    intro r
    rw [Json.size] at hf
    exact members_realize [] ms hv.1 hv.2 fuel (by omega) slotKey below r.1 r.2
  | arr xs =>
    rw [walk, foreach_not_object func rfl]
    rw [Json.size] at hf
    exact elems_realize [] xs hv fuel (by omega) slotKey below order acc
  | null | bool _ | int _ | real _ | str _ =>
    obtain ⟨fuel, rfl⟩ : ∃ n, fuel = n + 1 := ⟨fuel - 1, by omega⟩
    rw [foreach_not_object func rfl]
    exact stepLoop_stop func rfl

theorem members_realize (done rest : List (String × Json))
    (hk : ((done ++ rest).map (·.1)).Pairwise (· < ·)) (hs : Json.SortedMembers rest)
    (fuel : ℕ) (hf : 1 + 2 * Json.sizeMembers rest ≤ fuel) (slotKey : String)
    (below : List NavFrame) (order : ℕ) (acc : σ) :
    Realizes below
      (stepLoop func fuel
        ⟨frameAt (.obj (done ++ rest)) slotKey done.length :: below, order, acc⟩)
      (walkMembers func (.ofStack slotKey below) rest (order, acc)) := by
  obtain ⟨fuel, rfl⟩ : ∃ n, fuel = n + 1 := ⟨fuel - 1, by omega⟩
  cases rest with
  | nil =>
    rw [walkMembers]
    exact stepLoop_stop func (f := frameAt (.obj (done ++ [])) slotKey done.length)
      (by simp [stepIn, frameKeys])
  | cons m rest =>
    obtain ⟨key, v⟩ := m
    have hkey : (frameKeys (.obj (done ++ (key, v) :: rest)))[done.length]? = some key := by
      simp [frameKeys]
    have hstep := stepIn_obj hk slotKey below
    rw [Json.sizeMembers] at hf
    have hpos := v.size_pos
    -- the rest of the level starts one child later
    have hrest : ∀ r : ℕ × σ, Realizes below
        (stepLoop func fuel ⟨frameAt (.obj (done ++ (key, v) :: rest)) slotKey (done.length + 1) ::
          below, r.1, r.2⟩) (walkMembers func (.ofStack slotKey below) rest r) := by
      intro r
      have := members_realize (done ++ [(key, v)]) rest (by simpa using hk) hs.2 fuel (by omega)
        slotKey below r.1 r.2
      simpa using this
    cases v with
    | obj vs =>
      rw [walkMembers, if_pos (by simp [Json.isObject]), ← ofStack_member hkey slotKey below vs]
      exact stepLoop_enter func hstep
        (foreach_realizes (.obj vs) hs.1 fuel (by omega) _ _ order acc) hrest
    | arr xs =>
      rw [walkMembers, if_pos (by simp [Json.isArray]), ← ofStack_member_arr hkey slotKey below xs]
      exact stepLoop_enter func hstep
        (foreach_realizes (.arr xs) hs.1 fuel (by omega) _ _ order acc) hrest
    | null | bool _ | int _ | real _ | str _ =>
      rw [walkMembers]
      exact stepLoop_stop func hstep

theorem elems_realize (done rest : List Json) (hs : Json.SortedElems rest)
    (fuel : ℕ) (hf : 1 + 2 * Json.sizeElems rest ≤ fuel) (slotKey : String)
    (below : List NavFrame) (order : ℕ) (acc : σ) :
    Realizes below
      (stepLoop func fuel
        ⟨frameAt (.arr (done ++ rest)) slotKey done.length :: below, order, acc⟩)
      (walkElems func (.ofStack slotKey below) rest (order, acc)) := by
  obtain ⟨fuel, rfl⟩ : ∃ n, fuel = n + 1 := ⟨fuel - 1, by omega⟩
  cases rest with
  | nil =>
    rw [walkElems]
    exact stepLoop_stop func (f := frameAt (.arr (done ++ [])) slotKey done.length)
      (by simp [stepIn, frameKeys, indexKeys])
  | cons v rest =>
    have hstep := stepIn_arr done rest v slotKey below
    rw [Json.sizeElems] at hf
    have hpos := v.size_pos
    have hplace : Place.ofStack slotKey
        (frameAt (.arr (done ++ v :: rest)) slotKey (done.length + 1) :: below) =
        (Place.ofStack slotKey below).elem := ofStack_elem (by simp) slotKey below
    have hrest : ∀ r : ℕ × σ, Realizes below
        (stepLoop func fuel ⟨frameAt (.arr (done ++ v :: rest)) slotKey (done.length + 1) ::
          below, r.1, r.2⟩) (walkElems func (.ofStack slotKey below) rest r) := by
      intro r
      have := elems_realize (done ++ [v]) rest hs.2 fuel (by omega) slotKey below r.1 r.2
      simpa using this
    cases v with
    | obj vs =>
      rw [walkElems, if_pos (by simp [Json.isObject]), ← hplace]
      exact stepLoop_enter func hstep
        (foreach_realizes (.obj vs) hs.1 fuel (by omega) _ _ order acc) hrest
    | arr xs =>
      rw [walkElems, if_pos (by simp [Json.isArray]), ← hplace]
      exact stepLoop_enter func hstep
        (foreach_realizes (.arr xs) hs.1 fuel (by omega) _ _ order acc) hrest
    | null | bool _ | int _ | real _ | str _ =>
      rw [walkElems]
      exact stepLoop_stop func hstep
end

/-- The stack machine computes the recursive walk of the whole map, and its bound on the number of
calls is never what ends it. -/
theorem foreachPartition_eq_walk (pmap : Json) (h : pmap.Sorted) (acc : σ) :
    foreachPartition func pmap acc = Prod.snd <$> walk func {} pmap (0, acc) := by
  have hr := foreach_realizes func pmap h (2 * pmap.size) le_rfl "" [] 0 acc
  have hp : Place.ofStack "" [] = {} := by simp [Place.ofStack, stackInSlot, Place.slotsBelow]
  rw [hp] at hr
  unfold foreachPartition
  change (foreachPartitionImpl func (2 * pmap.size) ⟨[frameAt pmap "" 0], 0, acc⟩ >>= _) = _
  cases hm : foreachPartitionImpl func (2 * pmap.size) ⟨[frameAt pmap "" 0], 0, acc⟩ with
  | error e =>
    rw [hm, realizes_error_iff] at hr
    rw [hr]
    rfl
  | ok st =>
    rw [hm, realizes_ok_iff] at hr
    rw [hr.2]
    rfl

end Walk

end RpiFastbootd
