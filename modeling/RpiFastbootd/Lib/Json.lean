import Mathlib.Data.Rat.Floor
import Mathlib.Data.String.Basic

/-!
# JSON values with checked access

A JSON document as a `std::map` based library holds it: the members of an object are kept in key
order, an iterator runs over the values of an object or an array and over nothing else, and an
accessor raises an exception on a value of a type it does not convert (`Exn` is the `what()` of
that exception).

`Json.Sorted` is the map invariant at every object of a tree, and `Json.Doc` a tree that has it;
under it a member found by walking the member list is the one its key looks up (`lookup_of_mem`).
`Json.size` counts the values of a tree: it bounds every walk over one.
-/

namespace RpiFastbootd

/-- The `what()` of a C++ exception. -/
abbrev Exn := String

/-- A JSON value. Integers are the signed and unsigned 64-bit ones, everything else is real. -/
inductive Json where
  | null
  | bool (b : Bool)
  | int (z : ℤ)
  | real (q : ℚ)
  | str (s : String)
  | arr (xs : List Json)
  | obj (ms : List (String × Json))

namespace Json

/-! ### Type tests -/

def isNull : Json → Bool
  | null => true
  | _ => false

def isBool : Json → Bool
  | bool _ => true
  | _ => false

def isString : Json → Bool
  | str _ => true
  | _ => false

def isArray : Json → Bool
  | arr _ => true
  | _ => false

def isObject : Json → Bool
  | obj _ => true
  | _ => false

/-- An integral number in `[lo, hi]`. -/
def isIntegerIn (lo hi : ℤ) : Json → Bool
  | int z => decide (lo ≤ z ∧ z ≤ hi)
  | real q => decide (q.den = 1 ∧ lo ≤ q.num ∧ q.num ≤ hi)
  | _ => false

def isInt : Json → Bool := isIntegerIn (-2 ^ 31) (2 ^ 31 - 1)

def isInt64 : Json → Bool := isIntegerIn (-2 ^ 63) (2 ^ 63 - 1)

def isUInt64 : Json → Bool := isIntegerIn 0 (2 ^ 64 - 1)

/-! ### Conversions -/

def asString : Json → Except Exn String
  | null => .ok ""
  | bool b => .ok (if b then "true" else "false")
  | int z => .ok (toString z)
  | real q => .ok (toString q)
  | str s => .ok s
  | _ => .error "Type is not convertible to string"

def asBool : Json → Except Exn Bool
  | null => .ok false
  | bool b => .ok b
  | int z => .ok (z ≠ 0)
  | real q => .ok (q ≠ 0)
  | _ => .error "Value is not convertible to bool."

/-- Conversion to the integers of `[lo, hi]`; reals are truncated towards zero. -/
def asIntegerIn (lo hi : ℤ) : Json → Except Exn ℤ
  | null => .ok 0
  | bool b => .ok (if b then 1 else 0)
  | int z => if lo ≤ z ∧ z ≤ hi then .ok z else .error "LargestInt out of range"
  | real q =>
    if lo ≤ q ∧ q ≤ hi then .ok (q.num.tdiv q.den) else .error "double out of range"
  | _ => .error "Value is not convertible to an integer."

def asInt : Json → Except Exn ℤ := asIntegerIn (-2 ^ 31) (2 ^ 31 - 1)

def asInt64 : Json → Except Exn ℤ := asIntegerIn (-2 ^ 63) (2 ^ 63 - 1)

def asUInt64 : Json → Except Exn ℤ := asIntegerIn 0 (2 ^ 64 - 1)

/-- The value of an `int` is in its range. -/
theorem asInt_bounds {v : Json} {z : ℤ} (h : v.isInt) (hz : v.asInt = .ok z) :
    -2 ^ 31 ≤ z ∧ z ≤ 2 ^ 31 - 1 := by
  unfold isInt at h
  unfold asInt at hz
  cases v with
  | int n =>
    rw [asIntegerIn] at hz
    split_ifs at hz with hn
    cases hz
    exact hn
  | real q =>
    rw [asIntegerIn] at hz
    rw [isIntegerIn, decide_eq_true_eq] at h
    split_ifs at hz
    cases hz
    rw [h.1]
    simpa using h.2
  | _ => cases h

/-! ### Members and iteration -/

/-- The members of an object, in key order. -/
def members : Json → List (String × Json)
  | obj ms => ms
  | _ => []

/-- Member lookup: only a null or an object can be asked. -/
def find : Json → String → Except Exn (Option Json)
  | null, _ => .ok none
  | obj ms, key => .ok (ms.lookup key)
  | _, _ => .error "in Json::Value::find(begin, end): requires objectValue or nullValue"

def isMember (v : Json) (key : String) : Except Exn Bool := Option.isSome <$> v.find key

/-- `v[key]`: a missing member reads as null. -/
def get (v : Json) (key : String) : Except Exn Json := (·.getD null) <$> v.find key

/-- The values a range-for visits. -/
def elems : Json → List Json
  | arr xs => xs
  | obj ms => ms.map (·.2)
  | _ => []

@[simp] theorem find_obj (ms : List (String × Json)) (key : String) :
    (obj ms).find key = .ok (ms.lookup key) := rfl

@[simp] theorem find_null (key : String) : null.find key = .ok none := rfl

@[simp] theorem isMember_obj (ms : List (String × Json)) (key : String) :
    (obj ms).isMember key = .ok (ms.lookup key).isSome := rfl

@[simp] theorem get_obj (ms : List (String × Json)) (key : String) :
    (obj ms).get key = .ok ((ms.lookup key).getD null) := rfl

theorem isObject_iff {v : Json} : v.isObject ↔ ∃ ms, v = obj ms := by
  cases v <;> simp [isObject]

theorem isArray_iff {v : Json} : v.isArray ↔ ∃ xs, v = arr xs := by
  cases v <;> simp [isArray]

/-! ### Size -/

mutual
/-- The number of values of a tree. -/
def size : Json → ℕ
  | arr xs => 1 + sizeElems xs
  | obj ms => 1 + sizeMembers ms
  | _ => 1

def sizeElems : List Json → ℕ
  | [] => 0
  | x :: xs => x.size + sizeElems xs

def sizeMembers : List (String × Json) → ℕ
  | [] => 0
  | (_, x) :: ms => x.size + sizeMembers ms
end

theorem size_pos (v : Json) : 0 < v.size := by
  cases v <;> simp only [size] <;> omega

/-! ### Members at any depth -/

mutual
/-- Every member of every object of the tree satisfies `f`. -/
def allMembers (f : String → Json → Bool) : Json → Bool
  | arr xs => allMembersElems f xs
  | obj ms => allMembersIn f ms
  | _ => true

def allMembersElems (f : String → Json → Bool) : List Json → Bool
  | [] => true
  | v :: xs => v.allMembers f && allMembersElems f xs

def allMembersIn (f : String → Json → Bool) : List (String × Json) → Bool
  | [] => true
  | (key, v) :: ms => f key v && v.allMembers f && allMembersIn f ms
end

mutual
theorem allMembers_mono {f g : String → Json → Bool} (h : ∀ key v, f key v → g key v) (v : Json)
    (hv : v.allMembers f) : v.allMembers g := by
  cases v with
  | obj ms =>
    rw [allMembers] at hv ⊢
    exact allMembersIn_mono h ms hv
  | arr xs =>
    rw [allMembers] at hv ⊢
    exact allMembersElems_mono h xs hv
  | null | bool _ | int _ | real _ | str _ => simp [allMembers]

theorem allMembersElems_mono {f g : String → Json → Bool} (h : ∀ key v, f key v → g key v)
    (xs : List Json) (hx : allMembersElems f xs) : allMembersElems g xs := by
  cases xs with
  | nil => rfl
  | cons v xs =>
    simp only [allMembersElems, Bool.and_eq_true] at hx ⊢
    exact ⟨allMembers_mono h v hx.1, allMembersElems_mono h xs hx.2⟩

theorem allMembersIn_mono {f g : String → Json → Bool} (h : ∀ key v, f key v → g key v)
    (ms : List (String × Json)) (hm : allMembersIn f ms) : allMembersIn g ms := by
  cases ms with
  | nil => rfl
  | cons m ms =>
    obtain ⟨key, v⟩ := m
    simp only [allMembersIn, Bool.and_eq_true] at hm ⊢
    exact ⟨⟨h key v hm.1.1, allMembers_mono h v hm.1.2⟩, allMembersIn_mono h ms hm.2⟩
end

/-! ### The map invariant -/

mutual
/-- At every object of the tree the keys are strictly increasing. -/
def Sorted : Json → Prop
  | arr xs => SortedElems xs
  | obj ms => (ms.map (·.1)).Pairwise (· < ·) ∧ SortedMembers ms
  | _ => True

def SortedElems : List Json → Prop
  | [] => True
  | x :: xs => x.Sorted ∧ SortedElems xs

def SortedMembers : List (String × Json) → Prop
  | [] => True
  | (_, x) :: ms => x.Sorted ∧ SortedMembers ms
end

/-- A document: a tree with the map invariant. -/
structure Doc where
  root : Json
  sorted : root.Sorted

/-- The first member of a sorted object is not looked up by a later key. -/
theorem lookup_of_mem {ms : List (String × Json)} (h : (ms.map (·.1)).Pairwise (· < ·))
    {key : String} {v : Json} (hm : (key, v) ∈ ms) : ms.lookup key = some v := by
  induction ms with
  | nil => simp at hm
  | cons m ms ih =>
    obtain ⟨k, x⟩ := m
    simp only [List.map_cons, List.pairwise_cons] at h
    rcases List.mem_cons.1 hm with e | hm
    · obtain ⟨rfl, rfl⟩ := Prod.mk.inj e
      simp
    · have hlt : k < key := h.1 key (List.mem_map_of_mem (f := (·.1)) hm)
      have hne : (key == k) = false := by simpa using (ne_of_gt hlt)
      rw [List.lookup_cons, hne]
      exact ih h.2 hm

end Json

end RpiFastbootd
